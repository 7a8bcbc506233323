import Upsgi.Core.Static

/-! # Containment of static files

    The check of `upsgi_file_serve` compares bytes, so it lets a resolved path
    through whose front is the document root but which goes on inside the last
    name of the root.  The results here say exactly when a file outside of the
    root is served.
-/

namespace Upsgi

open Framing PathName

/-! ### Which file a resolved path stands for -/

variable {path name : Bytes}

section found

variable (cfg : StaticConfig) (fs : FileSystem) (req : StaticRequest)

/-- The file `name` is there to be served for the resolved path: the path
    itself, or an index file in it. -/
def Finds (path name : Bytes) : Prop :=
  upsgi_static_skip_ext_match cfg path = false ∧
    if isGet req && upsgi_static_try_open_regular fs path then
      req.route_break none = false ∧ name = path
    else ∃ index, upsgi_static_stat cfg fs path = some (name, index) ∧
      req.route_break index = false ∧ upsgi_static_skip_ext_match cfg name = false ∧
      ∀ i, index = some i → upsgi_req_append_path_info_with_index cfg req i = true

/-- Nothing is there for the resolved path. -/
def NotThere (path : Bytes) : Prop :=
  upsgi_static_skip_ext_match cfg path = false ∧
    (isGet req && upsgi_static_try_open_regular fs path) = false ∧
    upsgi_static_stat cfg fs path = none

/-- A path that the candidate is resolved to: the cached one, or the one
    `realpath` gives when nothing usable is cached. -/
def Resolves (cache : Bytes → Option Bytes) (document_root filename path : Bytes) : Prop :=
  staticCached cfg cache filename = some path ∨
    (fs.realpath (cstr filename) = some path ∧
      ∀ item, staticCached cfg cache filename = some item →
        staticAllowed cfg document_root item = true ∧ NotThere cfg fs req item)

variable {cfg fs req}

theorem staticSend_served {index : Option Bytes} :
    staticSend req index path = .served name ↔ req.route_break index = false ∧ name = path := by
  unfold staticSend
  cases req.route_break index <;> simp [eq_comm]

/-- Serving a resolved path is passing the check and finding a file. -/
theorem staticFound_served {document_root filename path name : Bytes} :
    (staticFound cfg fs req document_root filename path).1 = some (.served name) ↔
      staticAllowed cfg document_root path = true ∧ Finds cfg fs req path name := by
  unfold staticFound Finds
  cases hallowed : staticAllowed cfg document_root path with
  | false => simp
  | true =>
    cases hskip : upsgi_static_skip_ext_match cfg path with
    | true => simp
    | false =>
      cases hopen : isGet req && upsgi_static_try_open_regular fs path with
      | true => simp [staticSend_served]
      | false =>
        simp only [Bool.true_eq_false, Bool.false_eq_true, if_false, true_and]
        cases hstat : upsgi_static_stat cfg fs path with
        | none => simp
        | some found =>
          obtain ⟨name', index⟩ := found
          -- the name that was found is the only one, with its index
          have hone : (∃ index', some (name', index) = some (name, index') ∧
              req.route_break index' = false ∧ upsgi_static_skip_ext_match cfg name = false ∧
              ∀ i, index' = some i → upsgi_req_append_path_info_with_index cfg req i = true) ↔
              name = name' ∧ req.route_break index = false ∧
              upsgi_static_skip_ext_match cfg name' = false ∧
              ∀ i, index = some i → upsgi_req_append_path_info_with_index cfg req i = true := by
            constructor
            · rintro ⟨_, ⟨⟩, h⟩
              exact ⟨rfl, h⟩
            · rintro ⟨rfl, h⟩
              exact ⟨index, rfl, h⟩
          rw [hone]
          cases index with
          | none =>
            dsimp only
            cases upsgi_static_skip_ext_match cfg name' with
            | true => simp
            | false => simp [staticSend_served, and_comm]
          | some i =>
            dsimp only
            cases happend : upsgi_req_append_path_info_with_index cfg req i with
            | false => simp [happend]
            | true =>
              cases upsgi_static_skip_ext_match cfg name' with
              | true => simp
              | false => simp [staticSend_served, and_comm, happend]

/-- The retry is taken exactly when the check passes and nothing is there. -/
theorem staticFound_none {document_root filename path : Bytes} :
    (staticFound cfg fs req document_root filename path).1 = none ↔
      staticAllowed cfg document_root path = true ∧ NotThere cfg fs req path := by
  unfold staticFound NotThere
  cases hallowed : staticAllowed cfg document_root path with
  | false => simp
  | true =>
    cases hskip : upsgi_static_skip_ext_match cfg path with
    | true => simp
    | false =>
      cases hopen : isGet req && upsgi_static_try_open_regular fs path with
      | true => simp
      | false =>
        simp only [Bool.true_eq_false, Bool.false_eq_true, if_false, true_and]
        cases hstat : upsgi_static_stat cfg fs path with
        | none => simp
        | some found =>
          obtain ⟨name', index⟩ := found
          cases index with
          | none => simp only [reduceCtorEq, iff_false]; split <;> simp
          | some i =>
            simp only [reduceCtorEq, iff_false]
            split
            · simp
            · split <;> simp

theorem staticRealpath_served {document_root filename : Bytes} :
    (staticRealpath cfg fs req document_root filename).1 = .served name ↔
      ∃ path, fs.realpath (cstr filename) = some path ∧
        staticAllowed cfg document_root path = true ∧ Finds cfg fs req path name := by
  unfold staticRealpath
  cases hreal : fs.realpath (cstr filename) with
  | none => simp
  | some path =>
    have hserved : ((staticFound cfg fs req document_root filename path).1.getD .declined =
        .served name) ↔
        (staticFound cfg fs req document_root filename path).1 = some (.served name) := by
      cases (staticFound cfg fs req document_root filename path).1 <;> simp
    rw [hserved, staticFound_served]
    simp

end found

/-! ### Which file a request gets -/

section serve

variable {cfg : StaticConfig} {fs : FileSystem} {cache : Bytes → Option Bytes}
  {req : StaticRequest} {document_root path_info : Bytes} {is_a_file : Bool}

/-- Only these methods get a file. -/
def ServesMethod (req : StaticRequest) : Prop :=
  req.method = lit "GET" ∨ req.method = lit "HEAD"

/-- A file is served exactly when the candidate resolves to a path that passes
    the check and has a file. -/
theorem upsgi_file_serve_served :
    (upsgi_file_serve cfg fs cache req document_root path_info is_a_file).1 = .served name ↔
      ServesMethod req ∧
      upsgi_static_skip_ext_match cfg (staticFilename document_root path_info is_a_file) = false ∧
      ∃ path,
        Resolves cfg fs req cache document_root
          (staticFilename document_root path_info is_a_file) path ∧
        staticAllowed cfg document_root path = true ∧ Finds cfg fs req path name := by
  unfold upsgi_file_serve ServesMethod
  simp only [ne_eq, upsgi_strncmp_eq_zero_iff]
  by_cases hmethod : req.method = lit "GET" ∨ req.method = lit "HEAD"
  · rw [if_neg (by rintro ⟨h1, h2⟩; exact hmethod.elim h1 h2)]
    generalize staticFilename document_root path_info is_a_file = filename
    cases hskip : upsgi_static_skip_ext_match cfg filename with
    | true => simp
    | false =>
      simp only [Bool.false_eq_true, if_false, hmethod, true_and]
      unfold Resolves
      cases hcached : staticCached cfg cache filename with
      | none =>
        rw [staticRealpath_served]
        simp
      | some item =>
        dsimp only
        have hserved := @staticFound_served cfg fs req document_root filename item name
        have hnone := @staticFound_none cfg fs req document_root filename item
        generalize staticFound cfg fs req document_root filename item = out at hserved hnone
        obtain ⟨result, stored⟩ := out
        cases result with
        | some result =>
          -- the cached path decided, so the real one is not looked at
          have hstay : ¬(staticAllowed cfg document_root item = true ∧ NotThere cfg fs req item) :=
            fun h => by simpa using hnone.mpr h
          simp only [Option.some.injEq] at hserved
          rw [hserved]
          constructor
          · intro h
            exact ⟨item, .inl rfl, h⟩
          · rintro ⟨path, hpath | ⟨_, hretry⟩, h⟩
            · rw [Option.some.inj hpath]
              exact h
            · exact absurd (hretry item rfl) hstay
        | none =>
          have hretry := hnone.mp rfl
          simp only [reduceCtorEq, false_iff] at hserved
          rw [staticRealpath_served]
          constructor
          · rintro ⟨path, hreal, h⟩
            refine ⟨path, .inr ⟨hreal, ?_⟩, h⟩
            intro item' hitem
            cases hitem
            exact hretry
          · rintro ⟨path, hpath | ⟨hreal, _⟩, h⟩
            · cases hpath
              exact absurd h hserved
            · exact ⟨path, hreal, h⟩
  · rw [if_pos (by simpa [not_or] using hmethod)]
    simp [hmethod]

/-- The loop over the index names ends at a regular file in the directory. -/
theorem staticIndexLoop_some {dir : Bytes} {index : Option Bytes} {indexes : List Bytes}
    (h : staticIndexLoop cfg fs dir indexes = some (name, index)) :
    ∃ usl ∈ indexes, index = some usl ∧ name = child SLASH dir usl ∧
      fs.stat (cstr name) = some .regular := by
  induction indexes with
  | nil => cases h
  | cons usl rest ih =>
    have hrest (h : staticIndexLoop cfg fs dir rest = some (name, index)) :
        ∃ usl' ∈ usl :: rest, index = some usl' ∧ name = child SLASH dir usl' ∧
          fs.stat (cstr name) = some .regular := by
      obtain ⟨usl', hmem, hindex⟩ := ih h
      exact ⟨usl', List.mem_cons_of_mem _ hmem, hindex⟩
    unfold staticIndexLoop at h
    split at h
    · next name' happend =>
      split at h
      · next hregular =>
        cases h
        unfold upsgi_append_static_path at happend
        split at happend
        · cases happend
        · split at happend
          · cases happend
          · exact ⟨usl, List.mem_cons_self, rfl, (Option.some.inj happend).symm, hregular⟩
      · exact hrest h
    · exact hrest h

/-- The name of a served file is the resolved path or an entry of it. -/
theorem Finds.name_cases (h : Finds cfg fs req path name) :
    name = path ∨ ∃ index, name = child SLASH path index := by
  obtain ⟨_, hname⟩ := h
  split at hname
  · exact .inl hname.2
  · obtain ⟨index, hstat, _⟩ := hname
    unfold upsgi_static_stat at hstat
    split at hstat
    · exact .inl (Prod.mk.inj (Option.some.inj hstat)).1.symm
    · obtain ⟨usl, -, -, hname, -⟩ := staticIndexLoop_some hstat
      exact .inr ⟨usl, hname⟩
    · cases hstat

/-- Passing the raw check, the served file lies under the root exactly when the
    resolved path does. -/
theorem Finds.under_iff (h : Finds cfg fs req path name) (hroot : document_root <+: path) :
    Under SLASH document_root name ↔ Under SLASH document_root path := by
  rcases h.name_cases with rfl | ⟨index, rfl⟩
  · exact Iff.rfl
  · constructor
    · exact under_of_child hroot
    · exact fun hu => hu.child index

theorem staticAllowed_iff (hsafe : cfg.static_safe = []) (path : Bytes) :
    staticAllowed cfg document_root path = true ↔ document_root <+: path := by
  unfold staticAllowed
  rw [hsafe, ← upsgi_starts_with_eq_zero_iff]
  simp

/-- Only files of the document root are served. -/
def StaticContained (cfg : StaticConfig) (fs : FileSystem) (cache : Bytes → Option Bytes)
    (req : StaticRequest) (document_root path_info : Bytes) (is_a_file : Bool) : Prop :=
  ∀ name, (upsgi_file_serve cfg fs cache req document_root path_info is_a_file).1 =
    .served name → Under SLASH document_root name

/-- No resolved path with a file behind it goes on inside the last name of the
    document root. -/
def NoSibling (cfg : StaticConfig) (fs : FileSystem) (cache : Bytes → Option Bytes)
    (req : StaticRequest) (document_root filename : Bytes) : Prop :=
  ∀ path, Resolves cfg fs req cache document_root filename path →
    (∃ name, Finds cfg fs req path name) → document_root <+: path →
      Under SLASH document_root path

/-- Without safe paths, only files of the document root are served exactly when
    no resolved path is that of a sibling of the root. -/
theorem static_contained_iff (hsafe : cfg.static_safe = []) :
    StaticContained cfg fs cache req document_root path_info is_a_file ↔
      (ServesMethod req →
        upsgi_static_skip_ext_match cfg (staticFilename document_root path_info is_a_file) =
          false →
        NoSibling cfg fs cache req document_root
          (staticFilename document_root path_info is_a_file)) := by
  unfold StaticContained
  simp only [upsgi_file_serve_served, staticAllowed_iff hsafe]
  constructor
  · intro h hmethod hskip path hpath ⟨name, hfind⟩ hroot
    rw [← hfind.under_iff hroot]
    exact h name ⟨hmethod, hskip, path, hpath, hroot, hfind⟩
  · rintro h name ⟨hmethod, hskip, path, hpath, hroot, hfind⟩
    rw [hfind.under_iff hroot]
    exact h hmethod hskip path hpath ⟨name, hfind⟩ hroot

end serve

/-! ### A sibling directory -/

/-- The names of a path after its dot segments are resolved. -/
def resolvedNames (path : Bytes) : List Bytes :=
  (path.splitOn SLASH).foldl
    (fun names name =>
      if name = [] ∨ name = [DOT] then names
      else if name = [DOT, DOT] then names.dropLast
      else names ++ [name]) []

/-- A file system without symbolic links, with one regular file. -/
def oneFile (file : Bytes) : FileSystem where
  realpath path := some (render SLASH (resolvedNames path))
  open_fstat path := if path = file then some .regular else none
  stat path := if path = file then some .regular else none

/-- Static files without any option. -/
def plainStatic : StaticConfig where
  static_skip_ext := []
  static_safe := []
  static_index := []
  static_cache_paths := false
  path_max := 4096
  buffer_size := 4096
  vec_size := 100

/-- A GET request for a decoded path. -/
def getRequest (path_info : Bytes) : StaticRequest where
  method := lit "GET"
  path_info := path_info
  len := 100
  var_cnt := 20
  route_break := fun _ => false

theorem static_contained_index :
    StaticContained plainStatic (oneFile (lit "/var/www/index.html")) (fun _ => none)
      (getRequest (lit "/index.html")) (lit "/var/www") (lit "/index.html") false := by
  rw [static_contained_iff rfl]
  rintro _ _ path (hcached | ⟨hreal, _⟩) _ _
  · cases hcached
  · cases hreal
    decide +kernel

/-- Encoded dots lead to a directory beside the root whose name starts with the
    name of the root. -/
theorem static_contained_fails :
    (upsgi_file_serve plainStatic (oneFile (lit "/var/www-secret/key")) (fun _ => none)
        (getRequest (http_url_decode4 (lit "/%2e%2e/www-secret/key") false)) (lit "/var/www")
        (http_url_decode4 (lit "/%2e%2e/www-secret/key") false) false).1 =
      .served (lit "/var/www-secret/key") ∧
    ¬StaticContained plainStatic (oneFile (lit "/var/www-secret/key")) (fun _ => none)
        (getRequest (http_url_decode4 (lit "/%2e%2e/www-secret/key") false)) (lit "/var/www")
        (http_url_decode4 (lit "/%2e%2e/www-secret/key") false) false := by
  have hserved : (upsgi_file_serve plainStatic (oneFile (lit "/var/www-secret/key"))
      (fun _ => none) (getRequest (http_url_decode4 (lit "/%2e%2e/www-secret/key") false))
      (lit "/var/www") (http_url_decode4 (lit "/%2e%2e/www-secret/key") false) false).1 =
      .served (lit "/var/www-secret/key") := by
    decide +kernel
  refine ⟨hserved, ?_⟩
  intro h
  exact absurd (h _ hserved) (by decide +kernel)

end Upsgi
