import Upsgi.Core.Strings
import Upsgi.Core.Url
import Upsgi.Lib.Path

/-! # Static files

    `upsgi_file_serve` of `core/static.c`: from a document root and a path to
    the file that is handed to `upsgi_real_file_serve`.  The file system is a
    parameter: `realpath`, `open` with `fstat`, and `stat` are arbitrary
    functions, and so is the content of the path cache.  The counters and what
    `upsgi_real_file_serve` sends are left out.
-/

namespace Upsgi

open Framing PathName

/-! ### Configuration and environment -/

/-- The options `upsgi_file_serve` reads. -/
structure StaticConfig where
  static_skip_ext : List Bytes
  static_safe : List Bytes
  static_index : List Bytes
  /-- There is a path cache. -/
  static_cache_paths : Bool
  /-- `PATH_MAX` of the platform. -/
  path_max : Nat
  buffer_size : Nat
  vec_size : Nat

inductive FileKind where
  | regular
  | directory
  | other
  deriving DecidableEq, Repr

/-- What the system calls answer. -/
structure FileSystem where
  realpath : Bytes → Option Bytes
  /-- `open` and then `fstat`. -/
  open_fstat : Bytes → Option FileKind
  stat : Bytes → Option FileKind

/-- The fields of the request that are read. -/
structure StaticRequest where
  method : Bytes
  path_info : Bytes
  len : Nat
  var_cnt : Nat
  /-- Whether a routing rule ends the request before the file is sent.  The rules look
      at the request, to whose `PATH_INFO` an index name may have been appended. -/
  route_break : Option Bytes → Bool

/-- What `upsgi_file_serve` comes to. -/
inductive ServeResult where
  /-- `upsgi_real_file_serve` is called with this file name. -/
  | served (real_filename : Bytes)
  /-- A routing rule ended the request: the return value is 0. -/
  | routed
  /-- The return value is -1. -/
  | declined
  deriving DecidableEq, Repr

/-- A sized buffer as the C library reads it. -/
def cstr (s : Bytes) : Bytes :=
  s.takeWhile (· ≠ 0)

/-! ### Helpers -/

def upsgi_static_skip_ext_match (cfg : StaticConfig) (filename : Bytes) : Bool :=
  cfg.static_skip_ext.any fun sse =>
    sse.length ≤ filename.length &&
      upsgi_strncmp (filename.drop (filename.length - sse.length)) sse == 0

def upsgi_static_try_open_regular (fs : FileSystem) (filename : Bytes) : Bool :=
  fs.open_fstat (cstr filename) = some .regular

def upsgi_append_static_path (cfg : StaticConfig) (dir file : Bytes) : Option Bytes :=
  if dir.length = 0 then none
  else if cfg.path_max < dir.length + 1 + file.length then none
  else some (child SLASH dir file)

/-- The loop of `upsgi_static_stat` over the index names. -/
def staticIndexLoop (cfg : StaticConfig) (fs : FileSystem) (filename : Bytes) :
    List Bytes → Option (Bytes × Option Bytes)
  | [] => none
  | usl :: rest =>
      match upsgi_append_static_path cfg filename usl with
      | some name =>
          if fs.stat (cstr name) = some .regular then some (name, some usl)
          else staticIndexLoop cfg fs filename rest
      | none => staticIndexLoop cfg fs filename rest

/-- `upsgi_static_stat`: the file name, and the index name it was completed
    with. -/
def upsgi_static_stat (cfg : StaticConfig) (fs : FileSystem) (filename : Bytes) :
    Option (Bytes × Option Bytes) :=
  match fs.stat (cstr filename) with
  | some .regular => some (filename, none)
  | some .directory => staticIndexLoop cfg fs filename cfg.static_index
  | _ => none

/-- Whether `upsgi_req_append_path_info_with_index` succeeds; `path_info_len`
    is a `uint16_t`. -/
def upsgi_req_append_path_info_with_index (cfg : StaticConfig) (req : StaticRequest)
    (index : Bytes) : Bool :=
  let need_slash : Nat :=
    if req.path_info ≠ [] ∧ req.path_info.getLast? ≠ some SLASH then 1 else 0
  let path_info_len := (req.path_info.length + need_slash + index.length) % 65536
  if cfg.buffer_size < req.len + (13 + path_info_len) then false
  else if (cfg.vec_size : Int) - 6 ≤ req.var_cnt then false
  else true

/-! ### Serving a resolved path -/

/-- The containment check: the root, or a safe path, is compared byte by byte
    with the front of the resolved path. -/
def staticAllowed (cfg : StaticConfig) (document_root real_filename : Bytes) : Bool :=
  upsgi_starts_with real_filename document_root == 0 ||
    cfg.static_safe.any fun safe => upsgi_starts_with real_filename safe == 0

def isGet (req : StaticRequest) : Bool :=
  upsgi_strncmp req.method (lit "GET") == 0

/-- The last step before the file is sent. -/
def staticSend (req : StaticRequest) (index : Option Bytes) (real_filename : Bytes) : ServeResult :=
  if req.route_break index then .routed else .served real_filename

/-- From the label `found` on.  `none` means that there is no file to serve;
    the second part lists the calls of `upsgi_static_cache_store`. -/
def staticFound (cfg : StaticConfig) (fs : FileSystem) (req : StaticRequest)
    (document_root filename real_filename : Bytes) :
    Option ServeResult × List (Bytes × Bytes) :=
  if staticAllowed cfg document_root real_filename = false then (some .declined, [])
  else if upsgi_static_skip_ext_match cfg real_filename then (some .declined, [])
  else if isGet req && upsgi_static_try_open_regular fs real_filename then
    (some (staticSend req none real_filename), [])
  else
    match upsgi_static_stat cfg fs real_filename with
    | none => (none, [])
    | some (name, none) =>
        if upsgi_static_skip_ext_match cfg name then (some .declined, [])
        else (some (staticSend req none name), [])
    | some (name, some index) =>
        if upsgi_req_append_path_info_with_index cfg req index = false then
          (some .declined, [(filename, name)])
        else if upsgi_static_skip_ext_match cfg name then (some .declined, [(filename, name)])
        else (some (staticSend req (some index) name), [(filename, name)])

/-- The candidate path. -/
def staticFilename (document_root path_info : Bytes) (is_a_file : Bool) : Bytes :=
  if is_a_file then document_root else upsgi_concat3n document_root [SLASH] path_info

/-- A usable entry of the path cache; its key has a 16-bit length. -/
def staticCached (cfg : StaticConfig) (cache : Bytes → Option Bytes) (filename : Bytes) :
    Option Bytes :=
  if cfg.static_cache_paths then
    (cache (filename.take (filename.length % 65536))).filter fun item =>
      0 < item.length && item.length ≤ cfg.path_max
  else none

/-- Resolution by `realpath`. -/
def staticRealpath (cfg : StaticConfig) (fs : FileSystem) (req : StaticRequest)
    (document_root filename : Bytes) : ServeResult × List (Bytes × Bytes) :=
  match fs.realpath (cstr filename) with
  | none => (.declined, [])
  | some real_filename =>
      let (result, stored) := staticFound cfg fs req document_root filename real_filename
      (result.getD .declined, (filename, real_filename) :: stored)

/-- `upsgi_file_serve`.  A cached path without a file behind it is resolved
    once more. -/
def upsgi_file_serve (cfg : StaticConfig) (fs : FileSystem) (cache : Bytes → Option Bytes)
    (req : StaticRequest) (document_root path_info : Bytes) (is_a_file : Bool) :
    ServeResult × List (Bytes × Bytes) :=
  if upsgi_strncmp req.method (lit "GET") ≠ 0 ∧ upsgi_strncmp req.method (lit "HEAD") ≠ 0 then
    (.declined, [])
  else
    let filename := staticFilename document_root path_info is_a_file
    if upsgi_static_skip_ext_match cfg filename then (.declined, [])
    else
      match staticCached cfg cache filename with
      | some item =>
          match staticFound cfg fs req document_root filename item with
          | (some result, stored) => (result, stored)
          | (none, _) => staticRealpath cfg fs req document_root filename
      | none => staticRealpath cfg fs req document_root filename

end Upsgi
