import Upsgi.Core.Containment

/-! # The path cache of static files

    `upsgi_file_serve` keeps the paths it resolved in a cache, first the result of
    `realpath` and then, for a directory, the path of the index file in it.  Here it
    is compared with itself without the cache, over every history of calls.  What the
    cache still holds of what was stored is left open at each call, since items expire
    and are purged.
-/

namespace Upsgi

open Framing PathName List

/-! ### Calls and histories -/

/-- A call of `upsgi_file_serve` for a document root. -/
structure StaticCall where
  req : StaticRequest
  path_info : Bytes
  is_a_file : Bool

/-- The key of a path in the cache; its length is a `uint16_t`. -/
def pathKey (filename : Bytes) : Bytes :=
  filename.take (filename.length % 65536)

/-- Each entry of the cache is one that was stored. -/
def HoldsPart (cache : Bytes → Option Bytes) (stored : List (Bytes × Bytes)) : Prop :=
  ∀ key value, cache key = some value →
    ∃ filename, (filename, value) ∈ stored ∧ pathKey filename = key

section model

variable (cfg : StaticConfig) (fs : FileSystem) (document_root : Bytes)

def StaticCall.filename (call : StaticCall) : Bytes :=
  staticFilename document_root call.path_info call.is_a_file

def StaticCall.serve (call : StaticCall) (cache : Bytes → Option Bytes) :
    ServeResult × List (Bytes × Bytes) :=
  upsgi_file_serve cfg fs cache call.req document_root call.path_info call.is_a_file

/-- The result of the call when there is no path cache. -/
def StaticCall.uncached (call : StaticCall) : ServeResult :=
  (call.serve { cfg with static_cache_paths := false } fs document_root fun _ => none).1

/-- The index name can always be appended to `PATH_INFO`. -/
def StaticCall.Appends (call : StaticCall) : Prop :=
  ∀ index ∈ cfg.static_index, upsgi_req_append_path_info_with_index cfg call.req index = true

/-- The call is within what the cache can tell apart: the path is its own key, and the
    routing rules do not look at the index name. -/
structure StaticCall.Plain (call : StaticCall) : Prop where
  length : (call.filename document_root).length < 65536
  route : ∀ path name index, fs.realpath (cstr (call.filename document_root)) = some path →
    upsgi_static_stat cfg fs path = some (name, some index) →
    call.req.route_break (some index) = call.req.route_break none

/-- What was stored by a sequence of calls that all meet `ok`, latest first. -/
inductive StoredBy (ok : StaticCall → Prop) : List (Bytes × Bytes) → Prop where
  | start : StoredBy ok []
  | call {stored : List (Bytes × Bytes)} {cache : Bytes → Option Bytes} {call : StaticCall}
      (run : StoredBy ok stored) (part : HoldsPart cache stored) (appends : call.Appends cfg)
      (meets : ok call) :
      StoredBy ok ((call.serve cfg fs document_root cache).2 ++ stored)

end model

/-! ### The entries -/

section entries

variable {cfg : StaticConfig} {fs : FileSystem} {document_root filename path name : Bytes}
  {req : StaticRequest}

/-- What an entry of the cache stands for: the resolved path, or the index file in it
    when the path passed all checks. -/
def Entry (cfg : StaticConfig) (fs : FileSystem) (document_root : Bytes)
    (e : Bytes × Bytes) : Prop :=
  ∃ path, fs.realpath (cstr e.1) = some path ∧ (e.2 = path ∨
    (∃ index, upsgi_static_stat cfg fs path = some (e.2, some index)) ∧
      staticAllowed cfg document_root path = true ∧ upsgi_static_skip_ext_match cfg path = false)

/-- An index file is a regular file in the directory. -/
theorem upsgi_static_stat_index {index : Bytes}
    (h : upsgi_static_stat cfg fs path = some (name, some index)) :
    index ∈ cfg.static_index ∧ path <+: name ∧ fs.stat (cstr path) = some .directory ∧
      fs.stat (cstr name) = some .regular := by
  unfold upsgi_static_stat at h
  split at h
  · cases h
  · next hdir =>
    obtain ⟨usl, hmem, hindex, hname, hregular⟩ := staticIndexLoop_some h
    cases hindex
    exact ⟨hmem, hname ▸ child_extends SLASH path index, hdir, hregular⟩
  · cases h

/-- A path behind an allowed one is allowed. -/
theorem staticAllowed_of_extends (h : path <+: name)
    (hallowed : staticAllowed cfg document_root path = true) :
    staticAllowed cfg document_root name = true := by
  unfold staticAllowed at hallowed ⊢
  rw [Bool.or_eq_true, beq_iff_eq, upsgi_starts_with_eq_zero_iff, any_eq_true] at hallowed ⊢
  rcases hallowed with hroot | ⟨safe, hmem, hsafe⟩
  · exact .inl (hroot.trans h)
  · refine .inr ⟨safe, hmem, ?_⟩
    rw [beq_iff_eq, upsgi_starts_with_eq_zero_iff] at hsafe ⊢
    exact hsafe.trans h

/-- A store of `staticFound` is that of an index file. -/
theorem staticFound_stores {e : Bytes × Bytes}
    (h : e ∈ (staticFound cfg fs req document_root filename path).2) :
    e.1 = filename ∧ (∃ index, upsgi_static_stat cfg fs path = some (e.2, some index)) ∧
      staticAllowed cfg document_root path = true ∧
      upsgi_static_skip_ext_match cfg path = false := by
  unfold staticFound at h
  split at h
  · cases h
  next hallowed =>
  split at h
  · cases h
  next hskip =>
  split at h
  · cases h
  have hchecks : staticAllowed cfg document_root path = true ∧
      upsgi_static_skip_ext_match cfg path = false :=
    ⟨by simpa using hallowed, by simpa using hskip⟩
  split at h
  · cases h
  · split at h <;> cases h
  · next name index hstat =>
    have he : e = (filename, name) := by
      split at h
      · exact mem_singleton.mp h
      · split at h <;> exact mem_singleton.mp h
    subst he
    exact ⟨rfl, ⟨index, hstat⟩, hchecks⟩

/-- A cached index file is sent like any other file. -/
theorem staticFound_index_file (hallowed : staticAllowed cfg document_root name = true)
    (hregular : fs.stat (cstr name) = some .regular) :
    staticFound cfg fs req document_root filename name =
      (some (if upsgi_static_skip_ext_match cfg name then .declined else staticSend req none name),
        []) := by
  have hstat : upsgi_static_stat cfg fs name = some (name, none) := by
    unfold upsgi_static_stat
    rw [hregular]
  unfold staticFound
  rw [hallowed, if_neg nofun, hstat]
  dsimp only
  cases upsgi_static_skip_ext_match cfg name with
  | true => rfl
  | false => cases isGet req && upsgi_static_try_open_regular fs name <;> rfl

/-- The directory of an index file is not sent itself. -/
theorem staticFound_directory {index : Bytes}
    (hfs : ∀ p kind, fs.open_fstat p = some kind → fs.stat p = some kind)
    (hallowed : staticAllowed cfg document_root path = true)
    (hskip : upsgi_static_skip_ext_match cfg path = false)
    (hstat : upsgi_static_stat cfg fs path = some (name, some index))
    (happend : upsgi_req_append_path_info_with_index cfg req index = true) :
    (staticFound cfg fs req document_root filename path).1 =
      some (if upsgi_static_skip_ext_match cfg name then .declined
        else staticSend req (some index) name) := by
  have hopen : upsgi_static_try_open_regular fs path = false := by
    rw [upsgi_static_try_open_regular, decide_eq_false_iff_not]
    intro hregular
    have hdir := (upsgi_static_stat_index hstat).2.2.1
    nomatch hdir.symm.trans (hfs _ _ hregular)
  unfold staticFound
  rw [hallowed, if_neg nofun, hskip, if_neg nofun, hopen, Bool.and_false,
    if_neg nofun, hstat]
  dsimp only
  rw [happend, if_neg nofun]
  split <;> rfl

end entries

/-! ### One call -/

section step

variable {cfg : StaticConfig} {fs : FileSystem} {document_root : Bytes} {call : StaticCall}
  {cache : Bytes → Option Bytes} {stored : List (Bytes × Bytes)}

/-- A usable entry for a path that is its own key was stored for this path. -/
theorem staticCached_stored {filename item : Bytes}
    (hkeys : ∀ e ∈ stored, e.1.length < 65536) (hlength : filename.length < 65536)
    (hpart : HoldsPart cache stored) (h : staticCached cfg cache filename = some item) :
    (filename, item) ∈ stored := by
  unfold staticCached at h
  split at h
  · obtain ⟨hitem, -⟩ := Option.filter_eq_some_iff.mp h
    obtain ⟨filename', hmem, hkey⟩ := hpart _ _ hitem
    have hshort : filename'.length < 65536 := hkeys _ hmem
    unfold pathKey at hkey
    rw [Nat.mod_eq_of_lt hlength, Nat.mod_eq_of_lt hshort, take_length, take_length]
      at hkey
    exact hkey ▸ hmem
  · cases h

/-- Only the look at the cache depends on whether there is one. -/
theorem staticIndexLoop_without (filename : Bytes) (indexes : List Bytes) :
    staticIndexLoop { cfg with static_cache_paths := false } fs filename indexes =
      staticIndexLoop cfg fs filename indexes := by
  induction indexes with
  | nil => rfl
  | cons usl rest ih =>
    unfold staticIndexLoop
    rw [ih]
    rfl

theorem staticFound_without (req : StaticRequest) (filename path : Bytes) :
    staticFound { cfg with static_cache_paths := false } fs req document_root filename path =
      staticFound cfg fs req document_root filename path := by
  have hstat : upsgi_static_stat { cfg with static_cache_paths := false } fs path =
      upsgi_static_stat cfg fs path := by
    unfold upsgi_static_stat
    rw [staticIndexLoop_without]
  unfold staticFound
  rw [hstat]
  rfl

theorem staticRealpath_without (req : StaticRequest) (filename : Bytes) :
    staticRealpath { cfg with static_cache_paths := false } fs req document_root filename =
      staticRealpath cfg fs req document_root filename := by
  unfold staticRealpath
  cases fs.realpath (cstr filename) with
  | none => rfl
  | some path =>
    dsimp only
    rw [staticFound_without]

theorem StaticCall.serve_eq :
    call.serve cfg fs document_root cache =
      if upsgi_strncmp call.req.method (lit "GET") ≠ 0 ∧
          upsgi_strncmp call.req.method (lit "HEAD") ≠ 0 then (.declined, [])
      else if upsgi_static_skip_ext_match cfg (call.filename document_root) then (.declined, [])
      else
        match staticCached cfg cache (call.filename document_root) with
        | some item =>
            match staticFound cfg fs call.req document_root (call.filename document_root) item with
            | (some result, stored) => (result, stored)
            | (none, _) => staticRealpath cfg fs call.req document_root (call.filename document_root)
        | none => staticRealpath cfg fs call.req document_root (call.filename document_root) :=
  rfl

/-- Without a cache a call is resolved by `realpath`. -/
theorem StaticCall.uncached_eq :
    call.uncached cfg fs document_root =
      if upsgi_strncmp call.req.method (lit "GET") ≠ 0 ∧
          upsgi_strncmp call.req.method (lit "HEAD") ≠ 0 then .declined
      else if upsgi_static_skip_ext_match cfg (call.filename document_root) then .declined
      else (staticRealpath cfg fs call.req document_root (call.filename document_root)).1 := by
  rw [← staticRealpath_without]
  unfold StaticCall.uncached
  rw [StaticCall.serve_eq]
  split
  · rfl
  · -- the extensions do not depend on the cache either
    have hskip : ∀ filename, upsgi_static_skip_ext_match { cfg with static_cache_paths := false }
        filename = upsgi_static_skip_ext_match cfg filename := fun _ => rfl
    rw [hskip]
    split <;> rfl

section

variable (hfs : ∀ p kind, fs.open_fstat p = some kind → fs.stat p = some kind)
    (happends : call.Appends cfg) (hplain : call.Plain cfg fs document_root)
include hfs happends hplain

/-- A cached path gives the result of the resolution, or none. -/
theorem staticFound_cached {item : Bytes}
    (hentry : Entry cfg fs document_root (call.filename document_root, item)) :
    let filename := call.filename document_root
    (staticFound cfg fs call.req document_root filename item).1 = none ∨
      (staticFound cfg fs call.req document_root filename item).1 =
        some (staticRealpath cfg fs call.req document_root filename).1 := by
  obtain ⟨path, hreal, hitem⟩ := hentry
  dsimp only at hreal hitem ⊢
  have hresolved : (staticRealpath cfg fs call.req document_root (call.filename document_root)).1 =
      (staticFound cfg fs call.req document_root (call.filename document_root) path).1.getD
        .declined := by
    unfold staticRealpath
    rw [hreal]
  rcases hitem with rfl | ⟨⟨index, hstat⟩, hallowed, hskip⟩
  · rw [hresolved]
    cases (staticFound cfg fs call.req document_root (call.filename document_root) item).1 with
    | none => exact .inl rfl
    | some result => exact .inr rfl
  · -- the index file itself, with the same routing as after the directory
    obtain ⟨hmem, hextends, -, hregular⟩ := upsgi_static_stat_index hstat
    right
    rw [hresolved, staticFound_directory hfs hallowed hskip hstat (happends index hmem),
      staticFound_index_file (staticAllowed_of_extends hextends hallowed) hregular]
    unfold staticSend
    rw [hplain.route path item index hreal hstat]
    rfl

/-- Step: a call with the cache ends like the call without it. -/
theorem StaticCall.serve_eq_uncached
    (hstored : ∀ e ∈ stored, e.1.length < 65536 ∧ Entry cfg fs document_root e)
    (hpart : HoldsPart cache stored) :
    (call.serve cfg fs document_root cache).1 = call.uncached cfg fs document_root := by
  rw [StaticCall.uncached_eq, StaticCall.serve_eq]
  split
  · rfl
  split
  · rfl
  cases hcached : staticCached cfg cache (call.filename document_root) with
  | none => rfl
  | some item =>
    have hmem := staticCached_stored (fun e he => (hstored e he).1) hplain.length hpart hcached
    have hfound := staticFound_cached hfs happends hplain (hstored _ hmem).2
    dsimp only at hfound ⊢
    generalize hresult : staticFound cfg fs call.req document_root (call.filename document_root)
      item = found at hfound ⊢
    obtain ⟨result, stores⟩ := found
    rcases hfound with rfl | rfl <;> rfl

end

/-- Step: what a call stores are entries for its own path. -/
theorem StaticCall.serve_stores (hplain : call.Plain cfg fs document_root)
    (hstored : ∀ e ∈ stored, e.1.length < 65536 ∧ Entry cfg fs document_root e)
    (hpart : HoldsPart cache stored) :
    ∀ e ∈ (call.serve cfg fs document_root cache).2,
      e.1.length < 65536 ∧ Entry cfg fs document_root e := by
  have hrealpath : ∀ e ∈ (staticRealpath cfg fs call.req document_root
        (call.filename document_root)).2, e.1.length < 65536 ∧ Entry cfg fs document_root e := by
    intro e he
    unfold staticRealpath at he
    cases hreal : fs.realpath (cstr (call.filename document_root)) with
    | none =>
      rw [hreal] at he
      cases he
    | some path =>
      rw [hreal] at he
      rcases mem_cons.mp he with rfl | hindex
      · exact ⟨hplain.length, path, hreal, .inl rfl⟩
      · obtain ⟨hfilename, hchecks⟩ := staticFound_stores hindex
        exact ⟨hfilename ▸ hplain.length, path, hfilename ▸ hreal, .inr hchecks⟩
  rw [StaticCall.serve_eq]
  split
  · nofun
  split
  · nofun
  cases hcached : staticCached cfg cache (call.filename document_root) with
  | none => exact hrealpath
  | some item =>
    have hmem := staticCached_stored (fun e he => (hstored e he).1) hplain.length hpart hcached
    have hfound := @staticFound_stores cfg fs document_root (call.filename document_root) item
      call.req
    dsimp only
    generalize staticFound cfg fs call.req document_root (call.filename document_root) item = found
      at hfound ⊢
    obtain ⟨result, stores⟩ := found
    cases result with
    | none => exact hrealpath
    | some result =>
      -- an index file is regular, so it is the resolved path that is a directory
      intro e he
      obtain ⟨hfilename, ⟨index, hstat⟩, hchecks⟩ := hfound he
      obtain ⟨path, hreal, rfl | ⟨⟨index', hindex⟩, -⟩⟩ := (hstored _ hmem).2
      · exact ⟨hfilename ▸ hplain.length, item, hfilename ▸ hreal, .inr ⟨⟨index, hstat⟩, hchecks⟩⟩
      · have hdir := (upsgi_static_stat_index hstat).2.2.1
        have hregular := (upsgi_static_stat_index hindex).2.2.2
        nomatch hdir.symm.trans hregular

end step

/-! ### Histories -/

section history

variable {cfg : StaticConfig} {fs : FileSystem} {document_root : Bytes}

/-- Run: every entry that is ever stored is the resolution of its own path. -/
theorem StoredBy.entries {stored : List (Bytes × Bytes)}
    (h : StoredBy cfg fs document_root (·.Plain cfg fs document_root) stored) :
    ∀ e ∈ stored, e.1.length < 65536 ∧ Entry cfg fs document_root e := by
  induction h with
  | start => nofun
  | call _ part _ meets ih =>
    intro e he
    rcases mem_append.mp he with hnew | hold
    · exact StaticCall.serve_stores meets ih part e hnew
    · exact ih e hold

/-- **The path cache cannot be noticed** as long as the calls are such that their paths
    are their own keys and the routing rules do not look at the index name. -/
theorem path_cache_transparent
    (hfs : ∀ p kind, fs.open_fstat p = some kind → fs.stat p = some kind)
    {stored : List (Bytes × Bytes)}
    (hrun : StoredBy cfg fs document_root (·.Plain cfg fs document_root) stored)
    {cache : Bytes → Option Bytes} (hpart : HoldsPart cache stored) {call : StaticCall}
    (happends : call.Appends cfg) (hplain : call.Plain cfg fs document_root) :
    (call.serve cfg fs document_root cache).1 = call.uncached cfg fs document_root :=
  StaticCall.serve_eq_uncached hfs happends hplain hrun.entries hpart

end history

/-! ### Two histories -/

/-- A configuration with a path cache and one index name. -/
def cachedStatic : StaticConfig :=
  { plainStatic with static_index := [lit "i"], static_cache_paths := true }

/-- A file system with these files. -/
def filesOf (realpath : Bytes → Option Bytes) (kind : Bytes → Option FileKind) : FileSystem :=
  ⟨realpath, kind, kind⟩

/-- A GET for a path under the document root. -/
def getCall (path_info : Bytes) : StaticCall :=
  ⟨getRequest path_info, path_info, false⟩

/-- A directory `/r/d` with an index file. -/
def indexFiles : FileSystem :=
  filesOf (fun _ => some (lit "/r/d")) fun p =>
    if p = lit "/r/d" then some .directory else if p = lit "/r/d/i" then some .regular else none

theorem path_cache_transparent_index :
    ∃ cache : Bytes → Option Bytes, cache (lit "/r//d") = some (lit "/r/d/i") ∧
      ((getCall (lit "/d")).serve cachedStatic indexFiles (lit "/r") cache).1 =
        (getCall (lit "/d")).uncached cachedStatic indexFiles (lit "/r") ∧
      ((getCall (lit "/d")).serve cachedStatic indexFiles (lit "/r") cache).1 =
        .served (lit "/r/d/i") := by
  let cache : Bytes → Option Bytes :=
    fun key => if key = lit "/r//d" then some (lit "/r/d/i") else none
  have happends : (getCall (lit "/d")).Appends cachedStatic := by
    intro index hindex
    obtain rfl := mem_singleton.mp hindex
    decide
  have hplain : (getCall (lit "/d")).Plain cachedStatic indexFiles (lit "/r") :=
    ⟨by decide, fun _ _ _ _ _ => rfl⟩
  have hrun : StoredBy cachedStatic indexFiles (lit "/r")
      (·.Plain cachedStatic indexFiles (lit "/r"))
      (((getCall (lit "/d")).serve cachedStatic indexFiles (lit "/r") fun _ => none).2 ++ []) :=
    .call .start nofun happends hplain
  have hpart : HoldsPart cache (((getCall (lit "/d")).serve cachedStatic indexFiles (lit "/r")
      fun _ => none).2 ++ []) := by
    intro key value h
    have hkey : key = lit "/r//d" ∧ value = lit "/r/d/i" := by
      by_cases hk : key = lit "/r//d"
      · exact ⟨hk, (Option.some.inj ((if_pos hk).symm.trans h)).symm⟩
      · nomatch (if_neg hk).symm.trans h
    obtain ⟨rfl, rfl⟩ := hkey
    exact ⟨lit "/r//d", by decide, by decide⟩
  refine ⟨cache, by decide, ?_, by decide⟩
  exact path_cache_transparent (fun _ _ h => h) hrun hpart happends hplain

/-- A document root of forty bytes. -/
def longRoot : Bytes :=
  lit "/srv/www/sites/www.example.org/htdocs/v1"

/-- The file `c` in the root. -/
def rootFile (c : UInt8) : Bytes :=
  longRoot ++ [SLASH, c]

/-- Two files `a` and `b`; a path with more slashes than needed is resolved to them. -/
def twoFiles : FileSystem :=
  filesOf (fun p => p.getLast?.map rootFile) fun p =>
    if p = rootFile 97 ∨ p = rootFile 98 then some .regular else none

def longStatic : StaticConfig :=
  { plainStatic with static_cache_paths := true, buffer_size := 65535 }

/-- A file name behind `n` slashes. -/
def slashPath (n : Nat) (c : UInt8) : Bytes :=
  List.replicate n SLASH ++ [c]

/-- A GET for it. -/
def slashCall (n : Nat) (c : UInt8) : StaticCall :=
  ⟨{ getRequest (slashPath n c) with len := 65531 }, slashPath n c, false⟩

section slashes

variable {n : Nat} {c : UInt8}

theorem slashCall_filename :
    (slashCall n c).filename longRoot = longRoot ++ [SLASH] ++ slashPath n c :=
  rfl

theorem slashCall_realpath (hc : c ≠ 0) :
    twoFiles.realpath (cstr ((slashCall n c).filename longRoot)) = some (rootFile c) := by
  have hnul : (0 : UInt8) ∉ longRoot ++ [SLASH] ++ slashPath n c := by
    unfold slashPath
    rw [mem_append, @mem_append _ _ (List.replicate n SLASH), mem_replicate, mem_singleton]
    rintro (hroot | ⟨-, hslash⟩ | hlast)
    · nomatch hroot
    · nomatch hslash
    · exact hc hlast.symm
  have hlast : (longRoot ++ [SLASH] ++ slashPath n c).getLast? = some c := by
    unfold slashPath
    rw [← append_assoc, getLast?_concat]
  have hresolve (p : Bytes) : twoFiles.realpath p = p.getLast?.map rootFile := rfl
  unfold cstr
  rw [slashCall_filename, takeWhile_ne_self hnul, hresolve, hlast]
  rfl

/-- The length of the whole path is cut to 16 bits, and 1 is left of it. -/
theorem slashCall_key (hn : n % 65536 = 65495) :
    pathKey ((slashCall n c).filename longRoot) = [SLASH] := by
  have hlength : (longRoot ++ [SLASH] ++ slashPath n c).length % 65536 = 1 := by
    unfold slashPath
    rw [length_append, length_append, length_append, length_replicate]
    show (40 + 1 + (n + 1)) % 65536 = 1
    omega
  unfold pathKey
  rw [slashCall_filename, hlength]
  rfl

/-- Without a usable entry the call is resolved, and stores the result. -/
theorem slashCall_resolved (hc : c = 97 ∨ c = 98) :
    staticRealpath longStatic twoFiles (slashCall n c).req longRoot
        ((slashCall n c).filename longRoot) =
      (.served (rootFile c), [((slashCall n c).filename longRoot, rootFile c)]) := by
  have hreal : twoFiles.realpath (cstr ((slashCall n c).filename longRoot)) = some (rootFile c) :=
    slashCall_realpath (by rcases hc with rfl | rfl <;> decide)
  unfold staticRealpath
  rw [hreal]
  rcases hc with rfl | rfl <;> rfl

theorem slashCall_serve (cache : Bytes → Option Bytes) :
    (slashCall n c).serve longStatic twoFiles longRoot cache =
      match staticCached longStatic cache ((slashCall n c).filename longRoot) with
      | some item =>
          match staticFound longStatic twoFiles (slashCall n c).req longRoot
            ((slashCall n c).filename longRoot) item with
          | (some result, stored) => (result, stored)
          | (none, _) => staticRealpath longStatic twoFiles (slashCall n c).req longRoot
              ((slashCall n c).filename longRoot)
      | none => staticRealpath longStatic twoFiles (slashCall n c).req longRoot
          ((slashCall n c).filename longRoot) := by
  rw [StaticCall.serve_eq, if_neg (fun h => h.1 rfl), if_neg nofun]

/-- Two paths with the same key: the second call gets the file of the first. -/
theorem slashCall_collision (hn : n % 65536 = 65495) :
    ∃ stored cache, StoredBy longStatic twoFiles longRoot (fun _ => True) stored ∧
      HoldsPart cache stored ∧ (slashCall n 98).Appends longStatic ∧
      ((slashCall n 98).serve longStatic twoFiles longRoot cache).1 = .served (rootFile 97) ∧
      (slashCall n 98).uncached longStatic twoFiles longRoot = .served (rootFile 98) := by
  have hfirst : ((slashCall n 97).serve longStatic twoFiles longRoot fun _ => none).2 =
      [((slashCall n 97).filename longRoot, rootFile 97)] := by
    exact congrArg Prod.snd (slashCall_resolved (.inl rfl))
  let cache : Bytes → Option Bytes := fun key => if key = [SLASH] then some (rootFile 97) else none
  have hcached : staticCached longStatic cache ((slashCall n 98).filename longRoot) =
      some (rootFile 97) := by
    show (cache (pathKey ((slashCall n 98).filename longRoot))).filter _ = _
    rw [slashCall_key hn]
    decide
  have hstored : StoredBy longStatic twoFiles longRoot (fun _ => True)
      (((slashCall n 97).serve longStatic twoFiles longRoot fun _ => none).2 ++ []) :=
    .call .start nofun nofun trivial
  rw [hfirst] at hstored
  refine ⟨_, cache, hstored, ?_, nofun, ?_, ?_⟩
  · intro key value h
    have hkey : key = [SLASH] ∧ value = rootFile 97 := by
      by_cases hk : key = [SLASH]
      · exact ⟨hk, (Option.some.inj ((if_pos hk).symm.trans h)).symm⟩
      · nomatch (if_neg hk).symm.trans h
    obtain ⟨rfl, rfl⟩ := hkey
    exact ⟨_, mem_cons_self, slashCall_key hn⟩
  · rw [slashCall_serve, hcached]
    rfl
  · rw [StaticCall.uncached_eq, if_neg (fun h => h.1 rfl), if_neg nofun,
      slashCall_resolved (.inr rfl)]

end slashes

/-- Paths of 65496 bytes: a packet of 65535 bytes has room for them. -/
theorem path_cache_long_key :
    ∃ stored cache, StoredBy longStatic twoFiles longRoot (fun _ => True) stored ∧
      HoldsPart cache stored ∧ (slashCall 65495 98).Appends longStatic ∧
      ((slashCall 65495 98).serve longStatic twoFiles longRoot cache).1 = .served (rootFile 97) ∧
      (slashCall 65495 98).uncached longStatic twoFiles longRoot = .served (rootFile 98) :=
  slashCall_collision rfl

end Upsgi
