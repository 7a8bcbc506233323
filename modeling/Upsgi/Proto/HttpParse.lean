import Upsgi.Core.Url
import Upsgi.Proto.HttpHeader

/-! # From a header block to a request packet

    `http_parse` (`proto/http.c`) reads a complete HTTP header block and
    writes the request variables as frames into `wsgi_req->buffer`.  The
    block is the byte list from `proto_parser_buf` to the watermark; the
    pointer `ptr` is the part of it not yet scanned.

    `written` is a ghost component: the variables that were appended, as
    they were handed to the append functions, next to the bytes that were
    stored for their values.  No definition reads it back.
-/

namespace Upsgi

open Framing

/-! ### Configuration and result -/

/-- The address families `http_parse` tells apart, with the address bytes. -/
inductive Peer where
  | inet6 (addr : Bytes)
  | inet (addr : Bytes)

/-- What `http_parse` reads besides the block: server options, the socket's
    cached port, the request's `https` field and the C library's address
    printer. -/
structure HttpConfig where
  buffer_size : Nat
  enable_proxy_protocol : Bool := false
  manage_script_name : Bool := false
  http_path_info_no_decode_slashes : Bool := false
  hostname : Bytes := []
  server_port : Bytes := []
  https : Bytes := []
  peer : Peer
  inet_ntop4 : Bytes → Option Bytes
  inet_ntop6 : Bytes → Option Bytes

/-- Why a block is refused. -/
inductive HttpReject where
  | lineTerminator
  | protocolTooLong
  | inetNtop
  | foldedHeaders
  | headerTooLong
  | invalidRequest
  | duplicateHeader (normalized_name : Bytes)
  | chunkedWithContentLength
  | bufferFull
  deriving DecidableEq, Repr

/-- A variable that was appended: name and value as given, and the value bytes
    that were copied. -/
structure Written where
  name : Bytes
  value : Bytes
  stored : Bytes
  deriving DecidableEq, Repr

/-- The pair the caller asked for. -/
def Written.pair (w : Written) : Pair := (w.name, w.value)

/-- The part of `struct wsgi_request` that `http_parse` changes; `len` is the
    length of `buffer`. -/
structure HttpRequest where
  buffer : Bytes := []
  written : List Written := []
  ignore_body : Bool := false
  deriving DecidableEq, Repr

/-! ### Appending variables -/

/-- `proto_base_add_upsgi_var` (`proto/base.c`).  Both lengths are `uint16_t`
    parameters, so they are taken modulo `2 ^ 16` and only that much is copied.
    Without room nothing is written and the caller does not notice. -/
def proto_base_add_upsgi_var (buffer_size : Nat) (req : HttpRequest) (e : Pair) : HttpRequest :=
  let keylen := e.1.length % 65536
  let vallen := e.2.length % 65536
  if buffer_size ≤ req.buffer.length + keylen + vallen + 2 + 2 then req
  else
    { req with
      buffer := req.buffer ++
        (le16 keylen ++ e.1.take keylen ++ (le16 vallen ++ e.2.take vallen))
      written := req.written ++ [⟨e.1, e.2, e.2.take vallen⟩] }

/-- The CGI name of a header field. -/
def cgiName (slot : HeaderSlot) : Bytes :=
  (if slot.has_prefix then lit "HTTP_" else []) ++ http_header_normalize_name slot.key

/-- `http_add_upsgi_header`: the lengths are `size_t`, and only the length bytes
    are masked to sixteen bits.  `none` is the return value 0. -/
def http_add_upsgi_header (buffer_size : Nat) (req : HttpRequest) (slot : HeaderSlot) :
    Option HttpRequest :=
  let keylen := if slot.has_prefix then slot.key.length + 5 else slot.key.length
  let hvlen := slot.value.length
  if buffer_size ≤ req.buffer.length + keylen + hvlen + 2 + 2 then none
  else
    some { req with
      buffer := req.buffer ++ (le16 keylen ++ cgiName slot ++ (le16 hvlen ++ slot.value))
      written := req.written ++ [⟨cgiName slot, slot.value, slot.value⟩] }

/-! ### PATH_INFO -/

/-- The test `http_path_needs_decode` makes at a slash: what follows it. -/
def dotOrSlashFollows : Bytes → Bool
  | [] => false
  | c :: rest =>
      if c = SLASH then true
      else if c ≠ DOT then false
      else match rest with
        | [] => true
        | d :: rest' =>
            if d = SLASH then true
            else if d = DOT then
              match rest' with
              | [] => true
              | e :: _ => decide (e = SLASH)
            else false

/-- The loop of `http_path_needs_decode`. -/
def http_path_needs_decode_loop : Bytes → Bool
  | [] => false
  | c :: rest =>
      if c = PERCENT ∨ c = HASH then true
      else if c = SLASH ∧ dotOrSlashFollows rest then true
      else http_path_needs_decode_loop rest

def http_path_needs_decode (path : Bytes) : Bool :=
  match path with
  | [] => false
  | c :: _ => if c ≠ SLASH then true else http_path_needs_decode_loop path

/-- The value `http_add_path_info` gives to `PATH_INFO`; `path_len` is a
    `uint16_t` parameter. -/
def http_add_path_info (cfg : HttpConfig) (path : Bytes) : Bytes :=
  let path := path.take (path.length % 65536)
  if http_path_needs_decode path then
    http_url_decode4 path cfg.http_path_info_no_decode_slashes
  else path

/-! ### The PROXY protocol line -/

/-- The addresses found by `proxy1_parse`. -/
structure ProxyInfo where
  src : Option Bytes := none
  dst : Option Bytes := none
  src_port : Option Bytes := none
  dst_port : Option Bytes := none

/-- One scanning loop of `proxy1_parse`. -/
inductive ProxyScan where
  /-- A newline: `proxy1_parse` returns the rest. -/
  | newline (rest : Bytes)
  /-- The delimiter: the field in front of it, and the rest. -/
  | field (value rest : Bytes)
  /-- The watermark. -/
  | watermark

def proxyScan (stop : UInt8) (ptr : Bytes) : ProxyScan :=
  let value := ptr.takeWhile fun c => c ≠ stop && c ≠ LF
  match ptr.drop value.length with
  | [] => .watermark
  | c :: rest =>
      -- the field lengths are uint16_t
      if c = stop then .field (value.take (value.length % 65536)) rest else .newline rest

/-- `proxy1_parse`: the PROXY header in front of a request, if there is one. -/
def proxy1_parse (ptr : Bytes) : ProxyInfo × Bytes :=
  if ptr.length ≤ 6 ∨ ptr.take 6 ≠ lit "PROXY " then ({}, ptr)
  else
    match proxyScan SP (ptr.drop 6) with
    | .newline rest => ({}, rest)
    | .watermark => ({}, [])
    | .field _ ptr =>
    match proxyScan SP ptr with
    | .newline rest => ({}, rest)
    | .watermark => ({}, [])
    | .field src ptr =>
    match proxyScan SP ptr with
    | .newline rest => ({ src := src }, rest)
    | .watermark => ({ src := src }, [])
    | .field dst ptr =>
    match proxyScan SP ptr with
    | .newline rest => ({ src := src, dst := dst }, rest)
    | .watermark => ({ src := src, dst := dst }, [])
    | .field src_port ptr =>
    match proxyScan CR ptr with
    | .newline rest => ({ src := src, dst := dst, src_port := src_port }, rest)
    | .watermark => ({ src := src, dst := dst, src_port := src_port }, [])
    | .field dst_port ptr =>
        ({ src := src, dst := dst, src_port := src_port, dst_port := dst_port },
          (ptr.dropWhile (· ≠ LF)).drop 1)

/-- The proxy addresses, and the bytes `http_parse` takes for the request line
    and what follows it. -/
def requestStart (cfg : HttpConfig) (block : Bytes) : ProxyInfo × Bytes :=
  if cfg.enable_proxy_protocol then proxy1_parse block else ({}, block)

/-! ### The request line -/

/-- A `while (ptr < watermark)` loop that stops behind the byte `c`: what
    precedes it and what follows, or nothing when the watermark comes first. -/
def scanTo (c : UInt8) (ptr : Bytes) : Option (Bytes × Bytes) :=
  let before := ptr.takeWhile (· ≠ c)
  match ptr.drop before.length with
  | [] => none
  | _ :: rest => some (before, rest)

/-- REQUEST_METHOD: the variable to append, the rest, and `ignore_body`. -/
def requestMethod (ptr : Bytes) : List Pair × Bytes × Bool :=
  match scanTo SP ptr with
  | some (method, rest) =>
      ([(lit "REQUEST_METHOD", method)], rest, decide (upsgi_strncmp (lit "HEAD") method = 0))
  | none => ([], [], false)

/-- REQUEST_URI, PATH_INFO and QUERY_STRING.  PATH_INFO is appended as soon as
    the first question mark is met. -/
def requestUri (cfg : HttpConfig) (ptr : Bytes) : List Pair × Bytes :=
  match scanTo SP ptr with
  | some (uri, rest) =>
      match scanTo QMARK uri with
      | some (path, query_string) =>
          ([(lit "PATH_INFO", http_add_path_info cfg path), (lit "REQUEST_URI", uri),
            (lit "QUERY_STRING", query_string)], rest)
      | none =>
          ([(lit "REQUEST_URI", uri), (lit "PATH_INFO", http_add_path_info cfg uri),
            (lit "QUERY_STRING", [])], rest)
  | none =>
      match scanTo QMARK ptr with
      | some (path, _) => ([(lit "PATH_INFO", http_add_path_info cfg path)], [])
      | none => ([], [])

/-- SERVER_PROTOCOL. -/
def serverProtocol (ptr : Bytes) : Except HttpReject (List Pair × Bytes) :=
  match scanTo CR ptr with
  | none => .ok ([], [])
  | some (_, []) => .error .lineTerminator
  | some (protocol, c :: rest) =>
      if c ≠ LF then .error .lineTerminator
      else if 0xffff < protocol.length then .error .protocolTooLong
      else .ok ([(lit "SERVER_PROTOCOL", protocol)], rest)

/-- REMOTE_ADDR from the socket address; an IPv4-mapped IPv6 address is printed
    as an IPv4 one. -/
def remoteAddr (cfg : HttpConfig) : Option Bytes :=
  match cfg.peer with
  | .inet6 addr =>
      if addr.take 12 = [0, 0, 0, 0, 0, 0, 0, 0, 0, 0, 255, 255] then cfg.inet_ntop4 (addr.drop 12)
      else cfg.inet_ntop6 addr
  | .inet addr => cfg.inet_ntop4 addr

/-- REMOTE_ADDR and REMOTE_PORT. -/
def remoteVars (cfg : HttpConfig) (proxy : ProxyInfo) : Except HttpReject (List Pair) :=
  match proxy.src with
  | some src =>
      .ok ((lit "REMOTE_ADDR", src) ::
        match proxy.src_port with
        | some port => [(lit "REMOTE_PORT", port)]
        | none => [])
  | none =>
      match remoteAddr cfg with
      | some ip => .ok [(lit "REMOTE_ADDR", ip)]
      | none => .error .inetNtop

/-- SCRIPT_NAME, SERVER_NAME, SERVER_ADDR and SERVER_PORT. -/
def serverVars (cfg : HttpConfig) (proxy : ProxyInfo) : List Pair :=
  (if cfg.manage_script_name then [] else [(lit "SCRIPT_NAME", [])]) ++
  [(lit "SERVER_NAME", cfg.hostname)] ++
  match proxy.dst with
  | some dst =>
      (lit "SERVER_ADDR", dst) ::
        match proxy.dst_port with
        | some port => [(lit "SERVER_PORT", port)]
        | none => []
  | none =>
      [(lit "SERVER_PORT", if 0 < cfg.server_port.length then cfg.server_port else lit "80")]

/-- HTTPS. -/
def httpsVars (cfg : HttpConfig) : List Pair :=
  if 0 < cfg.https.length then [(lit "HTTPS", cfg.https)] else []

/-- The variables `http_parse` appends before the header fields, in order, the
    part of the block that holds the header lines, and `ignore_body`. -/
def requestVars (cfg : HttpConfig) (block : Bytes) :
    Except HttpReject (List Pair × Bytes × Bool) := do
  let (proxy, ptr) := requestStart cfg block
  let (methodVars, ptr, ignore_body) := requestMethod ptr
  let (uriVars, ptr) := requestUri cfg ptr
  let (protocolVars, ptr) ← serverProtocol ptr
  let remote ← remoteVars cfg proxy
  return (methodVars ++ uriVars ++ protocolVars ++ serverVars cfg proxy ++ remote ++
    httpsVars cfg, ptr, ignore_body)

/-! ### Header lines -/

/-- The header loop.  A round consumes a line and its CRLF, so the number of
    bytes is enough fuel.  The loop ends at an empty line or at the
    watermark. -/
def headerLoop : Nat → List HeaderSlot → Bytes → Except HttpReject (List HeaderSlot)
  | 0, headers, _ => .ok headers
  | fuel + 1, headers, ptr =>
      match scanTo CR ptr with
      | none => .ok headers
      | some (_, []) => .error .lineTerminator
      | some (line, c :: rest) =>
          if c ≠ LF then .error .lineTerminator
          else if rest.head? = some SP ∨ rest.head? = some TAB then .error .foldedHeaders
          else if line = [] then .ok headers
          else if 0xffff < line.length then .error .headerTooLong
          else
            match http_header_to_cgi line with
            | none => .error .invalidRequest
            | some field =>
                match tableAdd field headers with
                | none => .error (.duplicateHeader (http_header_normalize_name field.key))
                | some headers => headerLoop fuel headers rest

/-- A slot that the emission loop takes for a Content-Length field. -/
def isContentLength (slot : HeaderSlot) : Bool :=
  decide (slot.key.length = 14 ∧ upsgi_strnicmp slot.key (lit "Content-Length") = 0)

/-- A slot that the emission loop takes for a chunked Transfer-Encoding. -/
def isChunkedTransferEncoding (slot : HeaderSlot) : Bool :=
  decide (slot.key.length = 17 ∧ upsgi_strnicmp slot.key (lit "Transfer-Encoding") = 0) &&
    http_header_value_has_chunked_token slot.value

/-- The emission loop over the header table. -/
def emitHeaders (buffer_size : Nat) :
    Bool → Bool → List HeaderSlot → HttpRequest → Except HttpReject HttpRequest
  | _, _, [], req => .ok req
  | saw_content_length, saw_chunked, slot :: slots, req =>
      if isContentLength slot && saw_chunked then .error .chunkedWithContentLength
      else if !isContentLength slot && isChunkedTransferEncoding slot && saw_content_length then
        .error .chunkedWithContentLength
      else
        match http_add_upsgi_header buffer_size req slot with
        | none => .error .bufferFull
        | some req =>
            emitHeaders buffer_size (saw_content_length || isContentLength slot)
              (saw_chunked || (!isContentLength slot && isChunkedTransferEncoding slot)) slots req

/-- `http_parse`: `.ok` is the return value 0. -/
def http_parse (cfg : HttpConfig) (block : Bytes) : Except HttpReject HttpRequest := do
  let (vars, ptr, ignore_body) ← requestVars cfg block
  let req := vars.foldl (proto_base_add_upsgi_var cfg.buffer_size) { ignore_body := ignore_body }
  let headers ← headerLoop ptr.length [] ptr
  emitHeaders cfg.buffer_size false false headers req

end Upsgi
