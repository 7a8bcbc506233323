import Upsgi.Proto.HttpFields

/-! # The request line

    `http_parse` finds method, URI and protocol with three scans that are
    bounded by the end of the block only, and appends the variables made
    from them without looking at the result.  This module says when the
    packet carries the request line.
-/

namespace Upsgi

open Framing List

/-! ### PATH_INFO without the decoder -/

/-- What the decoder has read but not yet written in a state without a percent
    sign. -/
def UrlStatus.pending : UrlStatus → Option Bytes
  | .zero => some []
  | .slash => some [SLASH]
  | .dot => some [SLASH, DOT]
  | .dotdot => some [SLASH, DOT, DOT]
  | .percent1 | .percent2 => none

variable {rest block : Bytes} {cfg : HttpConfig} {l : RequestLine} {e : Pair} {es : List Pair}
    {req : HttpRequest}

theorem http_path_needs_decode_loop_cons {c : UInt8}
    (h : http_path_needs_decode_loop (c :: rest) = false) :
    c ≠ PERCENT ∧ c ≠ HASH ∧ (c = SLASH → dotOrSlashFollows rest = false) ∧
      http_path_needs_decode_loop rest = false := by
  unfold http_path_needs_decode_loop at h
  split at h
  · cases h
  · next hc =>
    split at h
    · cases h
    · next hs =>
      simp only [not_or] at hc
      refine ⟨hc.1, hc.2, fun hslash => ?_, h⟩
      simpa [hslash] using hs

theorem http_path_needs_decode_loop_append : ∀ pre : Bytes,
    http_path_needs_decode_loop (pre ++ rest) = false → http_path_needs_decode_loop rest = false
  | [], h => h
  | _ :: pre, h =>
      http_path_needs_decode_loop_append pre (http_path_needs_decode_loop_cons h).2.2.2

/-- On the rest of a path that does not need decoding the decoder copies. -/
theorem http_url_decode4_loop_clean (no_slash_decode : Bool) : ∀ (buf : Bytes) (i : Nat)
    (st : UrlState) (pre : Bytes), st.status.pending = some pre → pre.length ≤ i →
    http_path_needs_decode_loop (pre ++ buf) = false →
    http_url_decode4_end (http_url_decode4_loop no_slash_decode false i st buf) =
      st.dst ++ pre ++ buf
  | [], i, ⟨status, v, dst⟩, pre, hpre, _, hclean => by
      cases status <;> simp only [UrlStatus.pending, Option.some.injEq, reduceCtorEq] at hpre <;>
        subst hpre
      · simp [http_url_decode4_loop, http_url_decode4_end]
      · simp [http_url_decode4_loop, http_url_decode4_end]
      · cases hclean
      · cases hclean
  | c :: buf, i, ⟨status, v, dst⟩, pre, hpre, hi, hclean => by
      have ih := http_url_decode4_loop_clean no_slash_decode buf (i + 1)
      obtain ⟨hp, hh, -, hrest⟩ := http_path_needs_decode_loop_cons
        (http_path_needs_decode_loop_append pre hclean)
      unfold http_url_decode4_loop http_url_decode4_step
      rw [if_neg hh]
      cases status <;> simp only [UrlStatus.pending, Option.some.injEq, reduceCtorEq] at hpre <;>
        subst hpre
      case zero =>
        by_cases hslash : c = SLASH
        · subst hslash
          simpa [SLASH, PERCENT] using ih ⟨.slash, v, dst⟩ [SLASH] rfl (by simp) hclean
        · simpa [hp, hslash] using ih ⟨.zero, v, dst ++ [c]⟩ [] rfl (by simp) hrest
      case slash =>
        have hfollow := (http_path_needs_decode_loop_cons hclean).2.2.1 rfl
        by_cases hdot : c = DOT
        · subst hdot
          simpa using ih ⟨.dot, v, dst⟩ [SLASH, DOT] rfl (by simpa using hi) hclean
        · have hslash : c ≠ SLASH := by
            rintro rfl
            simp [dotOrSlashFollows] at hfollow
          simpa [hp, hdot, hslash] using ih ⟨.zero, v, dst ++ [SLASH] ++ [c]⟩ [] rfl (by simp) hrest
      case dot =>
        have hfollow := (http_path_needs_decode_loop_cons hclean).2.2.1 rfl
        have hi' : 1 < i := hi
        by_cases hdot : c = DOT
        · subst hdot
          simpa using ih ⟨.dotdot, v, dst⟩ [SLASH, DOT, DOT] rfl (by simpa using hi) hclean
        · have hslash : c ≠ SLASH := by
            rintro rfl
            simp [dotOrSlashFollows, DOT, SLASH] at hfollow
          simpa [hp, hdot, hslash, hi'] using
            ih ⟨.zero, v, dst ++ [SLASH] ++ [DOT] ++ [c]⟩ [] rfl (by simp) hrest
      case dotdot =>
        have hfollow := (http_path_needs_decode_loop_cons hclean).2.2.1 rfl
        have hi' : 2 < i := hi
        have hslash : c ≠ SLASH := by
          rintro rfl
          simp [dotOrSlashFollows, DOT, SLASH] at hfollow
        simpa [hp, hslash, hi'] using
          ih ⟨.zero, v, dst ++ [SLASH] ++ [DOT, DOT] ++ [c]⟩ [] rfl (by simp) hrest

/-- The decoder leaves a path alone that does not need it. -/
theorem http_url_decode4_clean {path : Bytes} (no_slash_decode : Bool)
    (h : http_path_needs_decode path = false) :
    http_url_decode4 path no_slash_decode = path := by
  unfold http_path_needs_decode at h
  split at h
  · cases no_slash_decode <;> rfl
  · next c rest =>
    split at h
    · cases h
    · next hc =>
      have hslash : c = SLASH := by simpa using hc
      have := http_url_decode4_loop_clean no_slash_decode (c :: rest) 0 ⟨.zero, 48, []⟩ [] rfl
        (Nat.le_refl 0) h
      unfold http_url_decode4
      simpa [hslash] using this

/-- The value of PATH_INFO is what the decoder makes of the path. -/
theorem http_add_path_info_decoded (cfg : HttpConfig) (path : Bytes) :
    http_add_path_info cfg path =
      http_url_decode4 (path.take (path.length % 65536)) cfg.http_path_info_no_decode_slashes := by
  unfold http_add_path_info
  dsimp only
  split
  · rfl
  · next hneed => rw [http_url_decode4_clean _ (Bool.not_eq_true _ ▸ hneed)]

/-- A path that does not need decoding is what the decoder would make of it, so
    PATH_INFO is the same with and without the test. -/
theorem path_info_fast_path (cfg : HttpConfig) (path : Bytes) :
    (http_path_needs_decode path = false →
        ∀ no_slash_decode, http_url_decode4 path no_slash_decode = path) ∧
      http_add_path_info cfg path =
        http_url_decode4 (path.take (path.length % 65536)) cfg.http_path_info_no_decode_slashes :=
  ⟨fun h no_slash_decode => http_url_decode4_clean no_slash_decode h,
    http_add_path_info_decoded cfg path⟩

theorem http_add_path_info_eq {path : Bytes} (h : path.length ≤ 65535) :
    http_add_path_info cfg path =
      http_url_decode4 path cfg.http_path_info_no_decode_slashes := by
  have hmod : path.length % 65536 = path.length := Nat.mod_eq_of_lt (by omega)
  rw [http_add_path_info_decoded, hmod, take_length]

/-! ### Request lines -/

/-- The three parts of a request line. -/
structure RequestLine where
  method : Bytes
  uri : Bytes
  protocol : Bytes
  method_clean : SP ∉ method ∧ CR ∉ method ∧ LF ∉ method
  uri_clean : SP ∉ uri ∧ CR ∉ uri ∧ LF ∉ uri
  protocol_clean : CR ∉ protocol ∧ LF ∉ protocol

namespace RequestLine

/-- A block that starts with the line. -/
def bytes (l : RequestLine) (rest : Bytes) : Bytes :=
  l.method ++ SP :: (l.uri ++ SP :: (l.protocol ++ CR :: LF :: rest))

/-- What precedes the first question mark of the URI. -/
def path (l : RequestLine) : Bytes :=
  l.uri.takeWhile (· ≠ QMARK)

/-- What follows the first question mark of the URI. -/
def query (l : RequestLine) : Bytes :=
  (l.uri.drop l.path.length).drop 1

/-- The variables of the line, for a given PATH_INFO, in the order in which
    `http_parse` appends them. -/
def varsWith (l : RequestLine) (path_info : Bytes) : List Pair :=
  (lit "REQUEST_METHOD", l.method) ::
    (if QMARK ∈ l.uri then [(lit "PATH_INFO", path_info), (lit "REQUEST_URI", l.uri)]
      else [(lit "REQUEST_URI", l.uri), (lit "PATH_INFO", path_info)]) ++
    [(lit "QUERY_STRING", l.query), (lit "SERVER_PROTOCOL", l.protocol)]

/-- The variables the line stands for: PATH_INFO is the decoded path. -/
def vars (cfg : HttpConfig) (l : RequestLine) : List Pair :=
  l.varsWith (http_url_decode4 l.path cfg.http_path_info_no_decode_slashes)

end RequestLine

/-- The URI scan finds the URI of the line. -/
theorem requestUri_line (cfg : HttpConfig) (l : RequestLine) (rest : Bytes) :
    requestUri cfg (l.uri ++ SP :: rest) =
      ((l.varsWith (http_add_path_info cfg l.path)).drop 1 |>.take 3, rest) := by
  unfold requestUri
  rw [scanTo_append _ l.uri_clean.1]
  rcases scanTo_cases QMARK l.uri with ⟨hno, hscan⟩ | ⟨path, query, huri, hno, hscan⟩
  · have hpath : l.path = l.uri := takeWhile_ne_self hno
    have hquery : l.query = [] := by
      unfold RequestLine.query
      simp [hpath]
    simp only [hscan, RequestLine.varsWith, hno, if_false, hpath, hquery]
    rfl
  · have hmem : QMARK ∈ l.uri := by simp [huri]
    have hpath : l.path = path := by
      unfold RequestLine.path
      rw [huri, takeWhile_ne_append query hno]
    have hquery : l.query = query := by
      unfold RequestLine.query
      rw [hpath, huri]
      simp
    simp only [hscan, RequestLine.varsWith, hmem, if_true, hpath, hquery]
    rfl

/-- The names of the variables made from the request line. -/
def lineNames : List Bytes :=
  [lit "REQUEST_METHOD", lit "PATH_INFO", lit "REQUEST_URI", lit "QUERY_STRING",
   lit "SERVER_PROTOCOL"]

/-- A block that starts with a request line: its variables come first, and the
    others have other names. -/
theorem requestVars_line {ptr : Bytes} {vars : List Pair} {ib : Bool}
    (hline : (requestStart cfg block).2 = l.bytes rest)
    (h : requestVars cfg block = .ok (vars, ptr, ib)) :
    ptr = rest ∧ l.protocol.length ≤ 65535 ∧
      ∃ tail, vars = l.varsWith (http_add_path_info cfg l.path) ++ tail ∧
        ∀ e ∈ tail, e.1 ∉ lineNames := by
  obtain ⟨protocolVars, remote, hp, hr, -, rfl⟩ := requestVars_ok h
  have hmethod : requestMethod (requestStart cfg block).2 =
      ([(lit "REQUEST_METHOD", l.method)], l.uri ++ SP :: (l.protocol ++ CR :: LF :: rest),
        decide (upsgi_strncmp (lit "HEAD") l.method = 0)) := by
    rw [hline, RequestLine.bytes]
    unfold requestMethod
    rw [scanTo_append _ l.method_clean.1]
  rw [hmethod] at hp ⊢
  simp only [requestUri_line] at hp ⊢
  unfold serverProtocol at hp
  rw [scanTo_append _ l.protocol_clean.1] at hp
  simp only [ne_eq, not_true_eq_false, if_false] at hp
  split at hp
  · cases hp
  · next hlen =>
    obtain ⟨rfl, rfl⟩ := hp
    refine ⟨rfl, by omega, serverVars cfg (requestStart cfg block).1 ++ remote ++ httpsVars cfg,
      ?_, ?_⟩
    · have hsplit : l.varsWith (http_add_path_info cfg l.path) =
          [(lit "REQUEST_METHOD", l.method)] ++
            ((l.varsWith (http_add_path_info cfg l.path)).drop 1).take 3 ++
            [(lit "SERVER_PROTOCOL", l.protocol)] := by
        unfold RequestLine.varsWith
        split <;> rfl
      conv => rhs; rw [hsplit]
      simp only [append_assoc]
    · intro e he
      simp only [mem_append] at he
      rcases he with (he | he) | he
      · exact (by decide : ∀ x ∈ [lit "SCRIPT_NAME", lit "SERVER_NAME", lit "SERVER_ADDR",
          lit "SERVER_PORT"], x ∉ lineNames) _ (serverVars_names _ _ e he)
      · exact (by decide : ∀ x ∈ [lit "REMOTE_ADDR", lit "REMOTE_PORT"], x ∉ lineNames) _
          (remoteVars_names hr e he)
      · rw [httpsVars_names _ e he]
        decide

/-! ### Which variables find room -/

theorem varSize_eq (h : Fits e) : varSize e = frameSize e := by
  unfold varSize frameSize
  rw [Nat.mod_eq_of_lt h.1, Nat.mod_eq_of_lt h.2]

theorem mem_keptVars_head {bs len : Nat} (h : e ∉ es) :
    e ∈ keptVars bs len (e :: es) ↔ len + varSize e < bs := by
  unfold keptVars
  split
  · next hroom => simp [hroom]
  · next hroom =>
    refine iff_of_false (fun hmem => h ((keptVars_sublist _ _ _).subset hmem)) hroom

theorem mem_keptVars_tail {bs len : Nat} {x : Pair} (h : x ≠ e) :
    x ∈ keptVars bs len (e :: es) ↔
      x ∈ keptVars bs (if len + varSize e < bs then len + varSize e else len) es := by
  conv => lhs; unfold keptVars
  split
  · simp [h]
  · rfl

/-- Variables that fit together are all kept. -/
theorem keptVars_append {bs : Nat} (tail : List Pair) : ∀ (es : List Pair) (len : Nat),
    len + (es.map varSize).sum < bs →
    keptVars bs len (es ++ tail) = es ++ keptVars bs (len + (es.map varSize).sum) tail
  | [], len, _ => by simp
  | e :: es, len, h => by
      simp only [List.map_cons, List.sum_cons] at h
      rw [List.cons_append, keptVars, if_pos (by omega), keptVars_append tail es _ (by omega)]
      simp [Nat.add_assoc]

/-- Variables of different names are all kept only if they fit together. -/
theorem sum_lt_of_mem_keptVars {bs : Nat} (tail : List Pair) : ∀ (es : List Pair) (len : Nat),
    es ≠ [] → (es.map Prod.fst).Nodup → (∀ e ∈ es, e ∉ tail) →
    (∀ e ∈ es, e ∈ keptVars bs len (es ++ tail)) →
    len + (es.map varSize).sum < bs
  | [], _, hne, _, _, _ => absurd rfl hne
  | e :: es, len, _, hnodup, htail, hkept => by
      rw [List.map_cons, List.nodup_cons] at hnodup
      have hnot : ∀ x ∈ es, x ≠ e := by
        rintro x hx rfl
        exact hnodup.1 (mem_map_of_mem hx)
      have hhead : e ∉ es ++ tail := by
        rw [mem_append]
        rintro (h | h)
        · exact hnot e h rfl
        · exact htail e (by simp) h
      have hroom := (mem_keptVars_head hhead).mp (hkept e (by simp))
      simp only [map_cons, sum_cons]
      cases hes : es with
      | nil => simpa using hroom
      | cons x xs =>
        rw [← hes]
        have := sum_lt_of_mem_keptVars tail es (len + varSize e) (by simp [hes]) hnodup.2
          (fun x hx => htail x (by simp [hx])) (fun x hx => by
            have := (mem_keptVars_tail (hnot x hx)).mp (hkept x (by simp [hx]))
            rwa [if_pos hroom] at this)
        omega

/-! ### The variables of the line in the packet -/

/-- The values given to a name. -/
def valuesNamed (es : List Pair) (name : Bytes) : List Bytes :=
  (es.filter fun e => e.1 = name).map Prod.snd

namespace RequestLine

theorem varsWith_names (l : RequestLine) (path_info : Bytes) :
    ((l.varsWith path_info).map Prod.fst).Nodup ∧
      ∀ e ∈ l.varsWith path_info, e.1 ∈ lineNames := by
  -- the names are always these five, in one of two orders
  have hperm : ((l.varsWith path_info).map Prod.fst).Perm lineNames := by
    unfold varsWith
    split
    · exact .refl _
    · exact .cons _ (.swap _ _ _)
  have hnodup : lineNames.Nodup := by decide
  exact ⟨hperm.nodup_iff.mpr hnodup, fun e he => hperm.mem_iff.mp (mem_map_of_mem he)⟩

end RequestLine

theorem filter_name_nil {name : Bytes} (h : ∀ x ∈ es, x.1 ≠ name) :
    (es.filter fun x => x.1 = name) = [] :=
  filter_eq_nil_iff.mpr fun x hx hname => h x hx (of_decide_eq_true hname)

/-- The values of a name of the line come from the request variables alone. -/
theorem valuesNamed_written (h : http_parse cfg block = .ok req) {name : Bytes}
    (hname : name ∈ lineNames) :
    valuesNamed (req.written.map Written.frame) name =
      ((acceptedVars cfg block).filter fun e => e.1 = name).map fun e =>
        e.2.take (e.2.length % 65536) := by
  obtain ⟨-, hwritten, hinv⟩ := http_parse_ok h
  have hnot : ¬IsHeaderVar name :=
    (by decide : ∀ x ∈ lineNames, ¬IsHeaderVar x) name hname
  have hslots : ((headerTable (receivedFields cfg block)).map writtenSlot |>.map Written.frame).filter
      (fun e => e.1 = name) = [] := by
    apply filter_name_nil
    intro e he heq
    obtain ⟨v, hv, rfl⟩ := mem_map.mp he
    obtain ⟨s, hs, rfl⟩ := mem_map.mp hv
    have := cgiName_isHeaderVar (hinv.wf s hs)
    rw [show cgiName s = name from heq] at this
    exact hnot this
  unfold valuesNamed
  rw [hwritten, map_append, filter_append, hslots, append_nil, map_map, filter_map, map_map]
  rfl

theorem take_mod_eq_self {v : Bytes} : v.take (v.length % 65536) = v ↔ v.length ≤ 65535 := by
  constructor
  · intro h
    have := congrArg List.length h
    rw [length_take] at this
    omega
  · intro h
    rw [Nat.mod_eq_of_lt (by omega), take_length]

/-- The request variables that find room, for a block with a request line. -/
theorem acceptedVars_line (h : http_parse cfg block = .ok req)
    (hline : (requestStart cfg block).2 = l.bytes rest) :
    l.protocol.length ≤ 65535 ∧
      ∃ tail, acceptedVars cfg block = keptVars cfg.buffer_size 0
          (l.varsWith (http_add_path_info cfg l.path) ++ tail) ∧
        ∀ e ∈ tail, e.1 ∉ lineNames := by
  obtain ⟨vars, ptr, ib, hvars⟩ := http_parse_requestVars h
  obtain ⟨-, hp, tail, rfl, htail⟩ := requestVars_line hline hvars
  exact ⟨hp, tail, by simp only [acceptedVars, hvars], htail⟩

/-- A name that occurs once in a list. -/
theorem filter_name_eq {tail : List Pair} (hnodup : (es.map Prod.fst).Nodup) (he : e ∈ es)
    (htail : ∀ x ∈ tail, x.1 ≠ e.1) :
    ((es ++ tail).filter fun x => x.1 = e.1) = [e] := by
  rw [filter_append, filter_name_nil htail, append_nil]
  obtain ⟨l, r, rfl⟩ := append_of_mem he
  simp only [map_append, map_cons, nodup_append, nodup_cons] at hnodup
  have hl : (l.filter fun x => x.1 = e.1) = [] :=
    filter_name_nil fun x hx => hnodup.2.2 _ (mem_map_of_mem hx) _ (by simp)
  have hr : (r.filter fun x => x.1 = e.1) = [] := by
    apply filter_name_nil
    intro x hx hname
    exact hnodup.2.1.1 (hname ▸ mem_map_of_mem hx)
  rw [filter_append, hl, filter_cons, hr]
  simp

/-- A variable of the line stands once in the packet with its value exactly
    when it found room and its value fits the length field. -/
theorem valuesNamed_line (h : http_parse cfg block = .ok req)
    (hline : (requestStart cfg block).2 = l.bytes rest)
    (he : e ∈ l.varsWith (http_add_path_info cfg l.path)) :
    valuesNamed (req.written.map Written.frame) e.1 = [e.2] ↔
      e ∈ acceptedVars cfg block ∧ e.2.length ≤ 65535 := by
  obtain ⟨hnodup, hnames⟩ := l.varsWith_names (http_add_path_info cfg l.path)
  obtain ⟨-, tail, hacc, htail⟩ := acceptedVars_line h hline
  rw [valuesNamed_written h (hnames e he), ← take_mod_eq_self]
  have hall := filter_name_eq hnodup he (fun x hx heq => htail x hx (heq ▸ hnames e he))
  have hsub := ((keptVars_sublist cfg.buffer_size 0
    (l.varsWith (http_add_path_info cfg l.path) ++ tail)).filter fun x => x.1 = e.1)
  rw [hall, ← hacc, sublist_singleton] at hsub
  rcases hsub with hnone | hone
  · rw [hnone]
    refine iff_of_false (by simp) ?_
    rintro ⟨hmem, -⟩
    have : e ∈ (acceptedVars cfg block).filter fun x => x.1 = e.1 :=
      mem_filter.mpr ⟨hmem, by simp⟩
    rw [hnone] at this
    simp at this
  · have hmem : e ∈ acceptedVars cfg block := by
      have : e ∈ (acceptedVars cfg block).filter fun x => x.1 = e.1 := by simp [hone]
      exact (mem_filter.mp this).1
    rw [hone]
    simp [hmem]

/-! ### The grammar of the request line -/

/-- The bytes in front of the first CR or LF. -/
def firstLine (start : Bytes) : Bytes :=
  start.takeWhile fun c => c ≠ CR && c ≠ LF

/-- The first line has two spaces and ends with CRLF. -/
def LineOk (start : Bytes) : Prop :=
  2 ≤ (firstLine start).count SP ∧ [CR, LF] <+: start.drop (firstLine start).length

instance (start : Bytes) : Decidable (LineOk start) :=
  inferInstanceAs (Decidable (_ ∧ _))

theorem firstLine_clean (start : Bytes) : CR ∉ firstLine start ∧ LF ∉ firstLine start := by
  have h : ∀ c ∈ firstLine start, c ≠ CR ∧ c ≠ LF := by
    intro c hc
    simpa using mem_takeWhile_imp hc
  exact ⟨fun hc => (h CR hc).1 rfl, fun hc => (h LF hc).2 rfl⟩

theorem firstLine_bytes (l : RequestLine) (rest : Bytes) :
    firstLine (l.bytes rest) = l.method ++ SP :: (l.uri ++ SP :: l.protocol) := by
  have hsplit : l.bytes rest =
      (l.method ++ SP :: (l.uri ++ SP :: l.protocol)) ++ CR :: LF :: rest := by
    simp [RequestLine.bytes]
  unfold firstLine
  rw [hsplit, takeWhile_append_of_pos, takeWhile_cons_of_neg (by decide), append_nil]
  intro c hc
  have hm := l.method_clean
  have hu := l.uri_clean
  have hp := l.protocol_clean
  simp only [Bool.and_eq_true, decide_eq_true_eq]
  constructor
  all_goals
    rintro rfl
    simp [hm, hu, hp] at hc
    nomatch hc

/-- The first line is a request line exactly when it has two spaces and ends
    with CRLF. -/
theorem lineOk_iff {start : Bytes} : LineOk start ↔ ∃ (l : RequestLine) (rest : Bytes),
    start = l.bytes rest := by
  constructor
  · rintro ⟨hcount, rest, hrest⟩
    obtain ⟨hcr, hlf⟩ := firstLine_clean start
    have hstart : start = firstLine start ++ CR :: LF :: rest := by
      have : firstLine start ++ start.drop (firstLine start).length = start :=
        prefix_iff_eq_append.mp ( takeWhile_prefix _)
      rw [← hrest] at this
      exact this.symm
    obtain ⟨m, x, hm, hsm⟩ := eq_append_cons_of_mem
      (count_pos_iff.mp (by omega : 0 < (firstLine start).count SP))
    rw [hm, count_append, count_eq_zero_of_not_mem hsm, count_cons_self] at hcount
    obtain ⟨u, p, hx, hsu⟩ := eq_append_cons_of_mem
      (count_pos_iff.mp (by omega : 0 < x.count SP))
    rw [hm, hx] at hcr hlf
    simp only [mem_append, mem_cons, not_or] at hcr hlf
    refine ⟨⟨m, u, p, ⟨hsm, hcr.1, hlf.1⟩, ⟨hsu, hcr.2.2.1, hlf.2.2.1⟩,
      ⟨hcr.2.2.2.2, hlf.2.2.2.2⟩⟩, rest, ?_⟩
    rw [hstart, hm, hx]
    simp [RequestLine.bytes]
  · rintro ⟨l, rest, rfl⟩
    refine ⟨?_, rest, ?_⟩
    · rw [firstLine_bytes]
      simp only [count_append, count_cons_self]
      omega
    · rw [firstLine_bytes]
      simp [RequestLine.bytes]

/-- The parts of a request line are determined by the block. -/
theorem RequestLine.bytes_inj {l' : RequestLine} {rest' : Bytes}
    (h : l.bytes rest = l'.bytes rest') : l = l' := by
  have hm := congrArg (scanTo SP) h
  unfold bytes at hm
  rw [scanTo_append _ l.method_clean.1, scanTo_append _ l'.method_clean.1, Option.some.injEq,
    Prod.mk.injEq] at hm
  have hu := congrArg (scanTo SP) hm.2
  rw [scanTo_append _ l.uri_clean.1, scanTo_append _ l'.uri_clean.1, Option.some.injEq,
    Prod.mk.injEq] at hu
  have hp := congrArg (scanTo CR) hu.2
  rw [scanTo_append _ l.protocol_clean.1, scanTo_append _ l'.protocol_clean.1, Option.some.injEq,
    Prod.mk.injEq] at hp
  obtain ⟨m, u, p, _, _, _⟩ := l
  obtain ⟨m', u', p', _, _, _⟩ := l'
  simp only [RequestLine.mk.injEq]
  exact ⟨hm.1, hu.1, hp.1⟩

/-! ### Room for the line -/

namespace RequestLine

/-- PATH_INFO of the line. -/
def pathInfo (cfg : HttpConfig) (l : RequestLine) : Bytes :=
  http_url_decode4 l.path cfg.http_path_info_no_decode_slashes

theorem pathInfo_length_le (cfg : HttpConfig) (l : RequestLine) :
    (l.pathInfo cfg).length ≤ l.uri.length :=
  (http_url_decode4_length_le _ _).trans ( takeWhile_prefix _).length_le

theorem query_length_le (l : RequestLine) : l.query.length ≤ l.uri.length := by
  unfold query
  simp only [length_drop]
  omega

theorem query_eq_nil (h : QMARK ∉ l.uri) : l.query = [] := by
  unfold query path
  rw [takeWhile_ne_self h]
  simp

/-- Room for method, URI and protocol.  Either all five variables of the line
    fit; or the one that is not asked for and may be the largest, QUERY_STRING
    with a question mark and PATH_INFO without, does not fit at its place and
    the other four do. -/
def Room (cfg : HttpConfig) (l : RequestLine) : Prop :=
  let method := frameSize (lit "REQUEST_METHOD", l.method)
  let uri := frameSize (lit "REQUEST_URI", l.uri)
  let path_info := frameSize (lit "PATH_INFO", l.pathInfo cfg)
  let query := frameSize (lit "QUERY_STRING", l.query)
  let protocol := frameSize (lit "SERVER_PROTOCOL", l.protocol)
  method + uri + path_info + query + protocol < cfg.buffer_size ∨
  (QMARK ∈ l.uri ∧ cfg.buffer_size ≤ method + uri + path_info + query ∧
    method + uri + path_info + protocol < cfg.buffer_size) ∨
  (QMARK ∉ l.uri ∧ cfg.buffer_size ≤ method + uri + path_info ∧
    method + uri + query + protocol < cfg.buffer_size)

instance (cfg : HttpConfig) (l : RequestLine) : Decidable (l.Room cfg) :=
  inferInstanceAs (Decidable (_ ∨ _ ∧ _ ∧ _ ∨ _ ∧ _ ∧ _))

theorem vars_fit (cfg : HttpConfig) (hm : l.method.length ≤ 65535) (hu : l.uri.length ≤ 65535)
    (hp : l.protocol.length ≤ 65535) :
    ∀ e ∈ l.vars cfg, Fits e := by
  intro e he
  have hname := requestVarNames_short e.1
    ((by decide : ∀ x ∈ lineNames, x ∈ requestVarNames) _ ((l.varsWith_names _).2 e he))
  refine ⟨hname.1, ?_⟩
  have hi := l.pathInfo_length_le cfg
  have hq := l.query_length_le
  unfold pathInfo at hi
  unfold vars varsWith at he
  split at he <;> simp only [cons_append, nil_append, mem_cons, not_mem_nil,
    or_false] at he <;> rcases he with rfl | rfl | rfl | rfl | rfl <;> simp only [] <;> omega

theorem pair_ne {a b : Bytes} (x y : Bytes) (h : a ≠ b) : ((a, x) : Pair) ≠ (b, y) :=
  fun he => h (congrArg Prod.fst he)

/-- Method, URI and protocol find room exactly under the condition above. -/
theorem room_iff {tail : List Pair} (hfit : ∀ e ∈ l.vars cfg, Fits e)
    (htail : ∀ e ∈ tail, e.1 ∉ lineNames) :
    ((lit "REQUEST_METHOD", l.method) ∈ keptVars cfg.buffer_size 0 (l.vars cfg ++ tail) ∧
      (lit "REQUEST_URI", l.uri) ∈ keptVars cfg.buffer_size 0 (l.vars cfg ++ tail) ∧
      (lit "SERVER_PROTOCOL", l.protocol) ∈ keptVars cfg.buffer_size 0 (l.vars cfg ++ tail)) ↔
    l.Room cfg := by
  have hnot : ∀ {name : Bytes} (v : Bytes), name ∈ lineNames → (name, v) ∉ tail :=
    fun v hname hmem => htail _ hmem hname
  have hsize : ∀ e ∈ l.vars cfg, varSize e = frameSize e := fun e he => varSize_eq (hfit e he)
  have hi := l.pathInfo_length_le cfg
  have hnames : (lit "REQUEST_METHOD").length = 14 ∧ (lit "REQUEST_URI").length = 11 ∧
      (lit "PATH_INFO").length = 9 ∧ (lit "QUERY_STRING").length = 12 ∧
      (lit "SERVER_PROTOCOL").length = 15 := by decide
  unfold Room
  by_cases hq : QMARK ∈ l.uri
  · have hvars : l.vars cfg = [(lit "REQUEST_METHOD", l.method),
        (lit "PATH_INFO", l.pathInfo cfg), (lit "REQUEST_URI", l.uri),
        (lit "QUERY_STRING", l.query), (lit "SERVER_PROTOCOL", l.protocol)] := by
      simp only [vars, varsWith, hq, if_true]
      rfl
    rw [hvars] at hsize ⊢
    simp only [mem_cons, not_mem_nil, or_false, forall_eq_or_imp, forall_eq] at hsize
    obtain ⟨hM, hI, hU, hQ, hP⟩ := hsize
    simp only [cons_append, nil_append]
    rw [mem_keptVars_head (by simp [lit, hnot, lineNames])]
    repeat rw [mem_keptVars_tail (pair_ne _ _ (by decide))]
    rw [mem_keptVars_head (by simp [lit, hnot, lineNames])]
    repeat rw [mem_keptVars_tail (pair_ne _ _ (by decide))]
    rw [mem_keptVars_head (hnot _ (by decide)), hM, hI, hU, hQ, hP]
    simp only [frameSize, hnames, hq, not_true_eq_false, false_and, or_false, true_and]
    split_ifs <;> omega
  · have hvars : l.vars cfg = [(lit "REQUEST_METHOD", l.method), (lit "REQUEST_URI", l.uri),
        (lit "PATH_INFO", l.pathInfo cfg), (lit "QUERY_STRING", l.query),
        (lit "SERVER_PROTOCOL", l.protocol)] := by
      simp only [vars, varsWith, hq, if_false]
      rfl
    have hquery : l.query.length = 0 := by rw [query_eq_nil hq]; rfl
    rw [hvars] at hsize ⊢
    simp only [mem_cons, not_mem_nil, or_false, forall_eq_or_imp, forall_eq] at hsize
    obtain ⟨hM, hU, hI, hQ, hP⟩ := hsize
    simp only [cons_append, nil_append]
    rw [mem_keptVars_head (by simp [lit, hnot, lineNames])]
    repeat rw [mem_keptVars_tail (pair_ne _ _ (by decide))]
    rw [mem_keptVars_head (by simp [lit, hnot, lineNames])]
    repeat rw [mem_keptVars_tail (pair_ne _ _ (by decide))]
    rw [mem_keptVars_head (hnot _ (by decide)), hM, hI, hU, hQ, hP]
    simp only [frameSize, hnames, hq, hquery, not_false_eq_true, false_and, false_or, true_and]
    split_ifs <;> omega

theorem mem_varsWith (l : RequestLine) (path_info : Bytes) :
    (lit "REQUEST_METHOD", l.method) ∈ l.varsWith path_info ∧
      (lit "REQUEST_URI", l.uri) ∈ l.varsWith path_info ∧
      (lit "SERVER_PROTOCOL", l.protocol) ∈ l.varsWith path_info := by
  unfold varsWith
  split <;> simp

/-- With a URI of at most 65535 bytes the code's PATH_INFO is the decoded path. -/
theorem varsWith_eq (hu : l.uri.length ≤ 65535) :
    l.varsWith (http_add_path_info cfg l.path) = l.vars cfg := by
  have hpath : l.path.length ≤ 65535 := ( takeWhile_prefix _).length_le.trans hu
  rw [http_add_path_info_eq hpath]
  rfl

end RequestLine

/-- The block starts with a request line, and REQUEST_METHOD, REQUEST_URI and
    SERVER_PROTOCOL stand in the packet exactly once, with its three parts. -/
def RequestLineEmitted (cfg : HttpConfig) (block : Bytes) (req : HttpRequest) : Prop :=
  ∃ (l : RequestLine) (rest : Bytes), (requestStart cfg block).2 = l.bytes rest ∧
    valuesNamed (req.written.map Written.frame) (lit "REQUEST_METHOD") = [l.method] ∧
    valuesNamed (req.written.map Written.frame) (lit "REQUEST_URI") = [l.uri] ∧
    valuesNamed (req.written.map Written.frame) (lit "SERVER_PROTOCOL") = [l.protocol]

/-- For a given line: what it takes to find it in the packet. -/
theorem emitted_line_iff (h : http_parse cfg block = .ok req)
    (hline : (requestStart cfg block).2 = l.bytes rest) :
    (valuesNamed (req.written.map Written.frame) (lit "REQUEST_METHOD") = [l.method] ∧
      valuesNamed (req.written.map Written.frame) (lit "REQUEST_URI") = [l.uri] ∧
      valuesNamed (req.written.map Written.frame) (lit "SERVER_PROTOCOL") = [l.protocol]) ↔
    l.method.length ≤ 65535 ∧ l.uri.length ≤ 65535 ∧ l.Room cfg := by
  obtain ⟨hM, hU, hP⟩ := l.mem_varsWith (http_add_path_info cfg l.path)
  obtain ⟨hp, tail, hacc, htail⟩ := acceptedVars_line h hline
  rw [valuesNamed_line h hline hM, valuesNamed_line h hline hU, valuesNamed_line h hline hP, hacc]
  constructor
  · rintro ⟨⟨h1, hm⟩, ⟨h2, hu⟩, h3, -⟩
    rw [RequestLine.varsWith_eq hu] at h1 h2 h3
    exact ⟨hm, hu, (RequestLine.room_iff (l.vars_fit cfg hm hu hp) htail).mp ⟨h1, h2, h3⟩⟩
  · rintro ⟨hm, hu, hroom⟩
    rw [RequestLine.varsWith_eq hu]
    obtain ⟨h1, h2, h3⟩ := (RequestLine.room_iff (l.vars_fit cfg hm hu hp) htail).mpr hroom
    exact ⟨⟨h1, hm⟩, ⟨h2, hu⟩, h3, hp⟩

/-- On an accepted block the request line is what it should be exactly when the
    first line has two spaces and a CRLF at its end, its first two parts fit
    into sixteen bits of length, and there is room for them. -/
theorem requestLineEmitted_iff {cfg : HttpConfig} {block : Bytes} {req : HttpRequest}
    (h : http_parse cfg block = .ok req) :
    RequestLineEmitted cfg block req ↔
      LineOk (requestStart cfg block).2 ∧
      ∀ (l : RequestLine) (rest : Bytes), (requestStart cfg block).2 = l.bytes rest →
        l.method.length ≤ 65535 ∧ l.uri.length ≤ 65535 ∧ l.Room cfg := by
  constructor
  · rintro ⟨l, rest, hline, hemitted⟩
    refine ⟨lineOk_iff.mpr ⟨l, rest, hline⟩, ?_⟩
    intro l' rest' hline'
    obtain rfl := RequestLine.bytes_inj (hline.symm.trans hline')
    exact (emitted_line_iff h hline).mp hemitted
  · rintro ⟨hok, hall⟩
    obtain ⟨l, rest, hline⟩ := lineOk_iff.mp hok
    exact ⟨l, rest, hline, (emitted_line_iff h hline).mpr (hall l rest hline)⟩

/-- A block whose first line is only a method is accepted, and its `Host` line
    is swallowed into REQUEST_METHOD. -/
theorem requestLineEmitted_fails :
    ∃ req, http_parse bigCfg (lit "GET\r\nHost: a b\r\n\r\n") = .ok req ∧
      valuesNamed (req.written.map Written.frame) (lit "REQUEST_METHOD") =
        [lit "GET\r\nHost:"] ∧
      ¬RequestLineEmitted bigCfg (lit "GET\r\nHost: a b\r\n\r\n") req := by
  obtain ⟨req, hreq⟩ := exists_ok
    (by decide +kernel : (http_parse bigCfg (lit "GET\r\nHost: a b\r\n\r\n")).isOk = true)
  refine ⟨req, hreq, ?_, ?_⟩
  · rw [valuesNamed_written hreq (by decide)]
    decide +kernel
  rintro ⟨l, rest, hline, -⟩
  have hok : LineOk (requestStart bigCfg (lit "GET\r\nHost: a b\r\n\r\n")).2 :=
    lineOk_iff.mpr ⟨l, rest, hline⟩
  exact absurd hok (by decide +kernel)

/-- The request line `GET / HTTP/1.1`. -/
def getRootLine : RequestLine where
  method := lit "GET"
  uri := lit "/"
  protocol := lit "HTTP/1.1"
  method_clean := by decide
  uri_clean := by decide
  protocol_clean := by decide

theorem http_parse_getRoot : ∃ req, http_parse bigCfg (getRootLine.bytes [CR, LF]) = .ok req :=
  exists_ok (by decide +kernel)

theorem requestStart_getRoot :
    (requestStart bigCfg (getRootLine.bytes [CR, LF])).2 = getRootLine.bytes [CR, LF] := by
  decide +kernel

theorem requestLineEmitted_getRoot :
    ∃ req, http_parse bigCfg (lit "GET / HTTP/1.1\r\n\r\n") = .ok req ∧
      RequestLineEmitted bigCfg (lit "GET / HTTP/1.1\r\n\r\n") req := by
  obtain ⟨req, hreq⟩ := http_parse_getRoot
  refine ⟨req, hreq, (requestLineEmitted_iff hreq).mpr ⟨by decide +kernel, ?_⟩⟩
  intro l rest hline
  obtain rfl := RequestLine.bytes_inj (requestStart_getRoot.symm.trans hline)
  decide +kernel

/-! ### The whole request in the packet -/

/-- A reader of the packet finds the five variables of the request line exactly
    once with their values, and every header field. -/
def CarriesRequest (cfg : HttpConfig) (block : Bytes) (l : RequestLine) (req : HttpRequest) :
    Prop :=
  ∃ es, packetVars req.buffer = some es ∧
    (∀ e ∈ l.vars cfg, valuesNamed es e.1 = [e.2]) ∧
    ∀ f ∈ receivedFields cfg block,
      (cgiName f, joinValues (valuesOf (receivedFields cfg block) f.key)) ∈ es

/-- The five variables fit into the packet together. -/
def RequestLine.RoomForAll (cfg : HttpConfig) (l : RequestLine) : Prop :=
  ((l.vars cfg).map frameSize).sum < cfg.buffer_size

instance (cfg : HttpConfig) (l : RequestLine) : Decidable (l.RoomForAll cfg) :=
  inferInstanceAs (Decidable (_ < _))

/-- Field names and joined values have lengths that sixteen bits can hold. -/
def FieldsFit (fs : List HeaderLine) : Prop :=
  ∀ f ∈ fs, (cgiName f).length ≤ 65535 ∧ (joinValues (valuesOf fs f.key)).length ≤ 65535

instance (fs : List HeaderLine) : Decidable (FieldsFit fs) :=
  inferInstanceAs (Decidable (∀ f ∈ fs, _))

section

variable {fs : List HeaderLine} {t : List HeaderSlot} (hinv : TableInv fs t)
include hinv

/-- Every slot of the table stands for one of the fields. -/
theorem slot_eq_field (hfs : ∀ f ∈ fs, f.Wf) {s : HeaderSlot} (hs : s ∈ t) :
    ∃ f ∈ fs, cgiName s = cgiName f ∧ s.value = joinValues (valuesOf fs f.key) := by
  obtain ⟨f, hf, hkey⟩ := hinv.origin s hs
  refine ⟨f, hf, cgiName_eq_of_fold (hinv.wf s hs) (hfs f hf) (by rw [hkey]), ?_⟩
  rw [hinv.merged s hs, hkey]

/-- Every field has its slot. -/
theorem field_eq_slot {f : HeaderLine} (hf : f ∈ fs) :
    ∃ s ∈ t, cgiName s = cgiName f ∧ s.value = joinValues (valuesOf fs f.key) := by
  obtain ⟨s, hs, hsame, hcgi⟩ := hinv.covered f hf
  refine ⟨s, hs, hcgi, ?_⟩
  rw [hinv.merged s hs]
  have hvalues : valuesOf fs s.key = valuesOf fs f.key := by
    unfold valuesOf
    congr 1
    refine filter_congr fun g _ => ?_
    rw [Bool.eq_iff_iff]
    exact ⟨sameName_trans (sameName_symm hsame), sameName_trans hsame⟩
  rw [hvalues]

end

/-- When the fields fit, the reader of the packet finds the written frames. -/
theorem packetVars_of_fieldsFit (h : http_parse cfg block = .ok req)
    (hfit : FieldsFit (receivedFields cfg block)) :
    packetVars req.buffer = some (req.written.map Written.frame) := by
  apply packetVars_of_slots_fit h
  intro slot hslot
  obtain ⟨f, hf, hname, hvalue⟩ := slot_eq_field (http_parse_ok h).2.2 receivedFields_wf hslot
  obtain ⟨hn, hv⟩ := hfit f hf
  rw [hname, hvalue]
  unfold Fits
  dsimp only
  exact ⟨by omega, by omega⟩

/-- On an accepted block with a request line the packet carries the request
    exactly when method, URI, field names and joined values have lengths that
    fit, and the five variables of the line fit into the packet together. -/
theorem carriesRequest_iff {cfg : HttpConfig} {block rest : Bytes} {req : HttpRequest}
    {l : RequestLine} (h : http_parse cfg block = .ok req)
    (hline : (requestStart cfg block).2 = l.bytes rest) :
    CarriesRequest cfg block l req ↔
      l.method.length ≤ 65535 ∧ l.uri.length ≤ 65535 ∧ l.RoomForAll cfg ∧
        FieldsFit (receivedFields cfg block) := by
  obtain ⟨-, hwritten, hinv⟩ := http_parse_ok h
  obtain ⟨hp, tail, hacc, htail⟩ := acceptedVars_line h hline
  constructor
  · rintro ⟨es, hcut, hvars, hfields⟩
    have hfit := packetVars_fits hcut
    -- what is read with its full length fits
    have hread : ∀ e ∈ l.vars cfg, e ∈ es := by
      intro e he
      have hmem : e.2 ∈ valuesNamed es e.1 := by simp [hvars e he]
      obtain ⟨x, hx, hx2⟩ := mem_map.mp hmem
      obtain ⟨hx, hx1⟩ := mem_filter.mp hx
      have : x = e := Prod.ext (of_decide_eq_true hx1) hx2
      rwa [this] at hx
    obtain ⟨hM, hU, -⟩ := l.mem_varsWith (l.pathInfo cfg)
    have hm : l.method.length < 65536 := (hfit _ (hread _ hM)).1.2
    have hu : l.uri.length < 65536 := (hfit _ (hread _ hU)).1.2
    have hFields : FieldsFit (receivedFields cfg block) := by
      intro f hf
      obtain ⟨hn, hv⟩ := (hfit _ (hfields f hf)).1
      dsimp only at hn hv
      exact ⟨by omega, by omega⟩
    refine ⟨by omega, by omega, ?_, hFields⟩
    -- hence the reader sees what was written, and the five variables were kept
    have hes := packetVars_of_fieldsFit h hFields
    rw [hcut, Option.some.injEq] at hes
    subst hes
    have hkept : ∀ e ∈ l.vars cfg, e ∈ keptVars cfg.buffer_size 0 (l.vars cfg ++ tail) := by
      intro e he
      have he' := he
      rw [← RequestLine.varsWith_eq (Nat.le_of_lt_succ hu)] at he'
      have := ((valuesNamed_line h hline he').mp (hvars e he)).1
      rwa [hacc, RequestLine.varsWith_eq (Nat.le_of_lt_succ hu)] at this
    have hsum := sum_lt_of_mem_keptVars tail (l.vars cfg) 0 (by simp [RequestLine.vars, RequestLine.varsWith])
      (l.varsWith_names _).1 (fun e he hmem => htail e hmem ((l.varsWith_names _).2 e he)) hkept
    rw [Nat.zero_add, map_congr_left fun e he =>
      varSize_eq (l.vars_fit cfg (by omega) (by omega) hp e he)] at hsum
    exact hsum
  · rintro ⟨hm, hu, hroom, hFields⟩
    have hfit := l.vars_fit cfg hm hu hp
    have hkept : keptVars cfg.buffer_size 0 (l.vars cfg ++ tail) = l.vars cfg ++ _ :=
      keptVars_append tail (l.vars cfg) 0 (by
        rw [Nat.zero_add, map_congr_left fun e he => varSize_eq (hfit e he)]
        exact hroom)
    refine ⟨_, packetVars_of_fieldsFit h hFields, ?_, ?_⟩
    · intro e he
      have he' := he
      rw [← RequestLine.varsWith_eq hu] at he'
      refine (valuesNamed_line h hline he').mpr ⟨?_, Nat.le_of_lt_succ (hfit e he).2⟩
      rw [hacc, RequestLine.varsWith_eq hu, hkept]
      exact mem_append_left _ he
    · intro f hf
      obtain ⟨s, hs, hn, hv⟩ := field_eq_slot hinv hf
      rw [hwritten, map_append, ← hn, ← hv]
      refine mem_append_right _ ?_
      rw [map_map]
      exact mem_map.mpr ⟨s, hs, rfl⟩

/-- A server with a buffer of 60 bytes. -/
def smallCfg : HttpConfig := { bigCfg with buffer_size := 60 }

/-- With a small buffer the request is accepted, but QUERY_STRING and
    SERVER_PROTOCOL did not fit and are missing from the packet. -/
theorem carriesRequest_fails :
    ∃ req, http_parse smallCfg (getRootLine.bytes [CR, LF]) = .ok req ∧
      ¬CarriesRequest smallCfg (getRootLine.bytes [CR, LF]) getRootLine req := by
  obtain ⟨req, hreq⟩ := exists_ok
    (by decide +kernel : (http_parse smallCfg (getRootLine.bytes [CR, LF])).isOk = true)
  refine ⟨req, hreq, ?_⟩
  rintro ⟨es, hcut, hvars, -⟩
  rw [packetVars_of_fieldsFit hreq (by decide +kernel), Option.some.injEq] at hcut
  have hprotocol := hvars (lit "SERVER_PROTOCOL", lit "HTTP/1.1") (by decide)
  rw [← hcut, valuesNamed_written hreq (by decide)] at hprotocol
  exact absurd hprotocol (by decide +kernel)

theorem carriesRequest_getRoot :
    ∃ req, http_parse bigCfg (getRootLine.bytes [CR, LF]) = .ok req ∧
      CarriesRequest bigCfg (getRootLine.bytes [CR, LF]) getRootLine req := by
  obtain ⟨req, hreq⟩ := http_parse_getRoot
  exact ⟨req, hreq, (carriesRequest_iff hreq requestStart_getRoot).mpr (by decide +kernel)⟩

end Upsgi
