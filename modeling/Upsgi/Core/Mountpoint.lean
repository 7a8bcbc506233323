import Upsgi.Core.Protocol

/-! # Mountpoint selection

    With `manage_script_name`, `upsgi_parse_vars` looks for the application below
    whose mountpoint PATH_INFO lies and moves the mountpoint over to
    SCRIPT_NAME.  Candidates are compared without a trailing slash; the request
    is rewritten with the whole mountpoint, so a trailing slash is taken from
    PATH_INFO as well, and the length of what is left is a number of sixteen
    bits.
-/

namespace Upsgi

open Framing (Bytes)
open List

/-! ### The code -/

/-- The part of `struct upsgi_app` that is read here. -/
structure UpsgiApp where
  mountpoint : Bytes
  /-- `upsgi_add_app` cuts what is longer. -/
  mountpoint_lt : mountpoint.length < 0xff

/-- The length of a mountpoint without a trailing slash. -/
def trimmedLen (mountpoint : Bytes) : Nat :=
  if mountpoint.getLast? = some SLASH then mountpoint.length - 1 else mountpoint.length

/-- The `len` bytes at `offset`; `beyond` is what lies in memory behind `buf`. -/
def readMemory (buf : Bytes) (beyond : Nat → UInt8) (offset len : Nat) : Bytes :=
  (List.range len).map fun k => buf.getD (offset + k) (beyond (offset + k - buf.length))

/-- PATH_INFO behind a mountpoint.  Its length is a `uint16_t`. -/
def pathInfoBehind (orig_path_info : Bytes) (beyond : Nat → UInt8) (script_name_len : Nat) : Bytes :=
  let path_info_len := (((orig_path_info.length : Int) - script_name_len) % 65536).toNat
  readMemory orig_path_info beyond script_name_len path_info_len

/-- One round of the loop over the applications, with `best_found` and the
    request as its state. -/
def considerMountpoint (orig_path_info : Bytes) (beyond : Nat → UInt8) (acc : Nat × WsgiRequest)
    (app : UpsgiApp) : Nat × WsgiRequest :=
  let mountpoint_len := trimmedLen app.mountpoint
  -- it should be shorter than or equal to PATH_INFO, better than the previous
  -- one, a beginning of PATH_INFO, and not misleading
  if orig_path_info.length < mountpoint_len ∨ mountpoint_len ≤ acc.1 ∨
      orig_path_info.take mountpoint_len ≠ app.mountpoint.take mountpoint_len ∨
      (mountpoint_len < orig_path_info.length ∧ orig_path_info[mountpoint_len]? ≠ some SLASH) then
    acc
  else
    let path_info := pathInfoBehind orig_path_info beyond app.mountpoint.length
    (mountpoint_len,
      { acc.2 with
        script_name := app.mountpoint
        path_info := path_info
        hvec := setVec (setVec acc.2.hvec acc.2.script_name_pos.toNat app.mountpoint)
          acc.2.path_info_pos.toNat path_info })

/-- If SCRIPT_NAME is not there, a slot is added for it; `none` is `return -1`. -/
def addScriptNameSlot (cfg : VarsConfig) (req : WsgiRequest) : Option WsgiRequest :=
  if req.script_name_pos = -1 then
    if cfg.vec_size - (4 + 2) ≤ req.var_cnt then none
    else
      let name_pos := req.var_cnt
      let value_pos := (req.var_cnt + 1) % 65536
      some { req with
        hvec := setVec (setVec req.hvec name_pos (lit "SCRIPT_NAME")) value_pos []
        script_name_pos := value_pos
        var_cnt := (value_pos + 1) % 65536 }
  else some req

/-- The part of `upsgi_parse_vars` for `manage_script_name`. -/
def manageScriptName (cfg : VarsConfig) (apps : List UpsgiApp) (beyond : Nat → UInt8)
    (req : WsgiRequest) : Option WsgiRequest :=
  if 0 < apps.length ∧ 1 ≤ req.path_info.length ∧ req.path_info_pos ≠ -1 then
    (addScriptNameSlot cfg req).map fun req =>
      (apps.foldl (considerMountpoint req.path_info beyond) (0, req)).2
  else some req

/-! ### Matching mountpoints -/

def trimSlash (mountpoint : Bytes) : Bytes :=
  mountpoint.take (trimmedLen mountpoint)

/-- The path lies at or below the mountpoint. -/
def MountMatches (path mountpoint : Bytes) : Prop :=
  mountpoint <+: path ∧ (mountpoint.length = path.length ∨ path[mountpoint.length]? = some SLASH)

/-- The longest matching mountpoint of a list, without a trailing slash. -/
structure LongestMount (apps : List UpsgiApp) (path mountpoint : Bytes) : Prop where
  isMount : ∃ app ∈ apps, trimSlash app.mountpoint = mountpoint
  isMatch : MountMatches path mountpoint
  longest : ∀ app ∈ apps, MountMatches path (trimSlash app.mountpoint) →
    (trimSlash app.mountpoint).length ≤ mountpoint.length

theorem trimmedLen_le (mountpoint : Bytes) : trimmedLen mountpoint ≤ mountpoint.length := by
  unfold trimmedLen
  split <;> omega

@[simp] theorem trimSlash_length (mountpoint : Bytes) :
    (trimSlash mountpoint).length = trimmedLen mountpoint := by
  rw [trimSlash, length_take, Nat.min_eq_left (trimmedLen_le mountpoint)]

theorem trimSlash_of_slash {mountpoint : Bytes} (h : mountpoint.getLast? = some SLASH) :
    mountpoint.length = (trimSlash mountpoint).length + 1 := by
  have hne : mountpoint ≠ [] := by
    rintro rfl
    cases h
  have hpos := length_pos_iff.mpr hne
  rw [trimSlash_length, trimmedLen, if_pos h]
  omega

theorem trimSlash_of_not_slash {mountpoint : Bytes} (h : mountpoint.getLast? ≠ some SLASH) :
    trimSlash mountpoint = mountpoint := by
  rw [trimSlash, trimmedLen, if_neg h, take_length]

/-- Two matching mountpoints of one length are the same. -/
theorem MountMatches.eq {path a b : Bytes} (ha : MountMatches path a) (hb : MountMatches path b)
    (hlen : a.length = b.length) : a = b :=
  List.IsPrefix.eq_of_length (prefix_of_prefix_length_le ha.1 hb.1 (Nat.le_of_eq hlen)) hlen

/-- What the tests of the loop accept. -/
theorem candidate_iff (path : Bytes) (best_found : Nat) (app : UpsgiApp) :
    ¬(path.length < trimmedLen app.mountpoint ∨ trimmedLen app.mountpoint ≤ best_found ∨
        path.take (trimmedLen app.mountpoint) ≠ app.mountpoint.take (trimmedLen app.mountpoint) ∨
        (trimmedLen app.mountpoint < path.length ∧
          path[trimmedLen app.mountpoint]? ≠ some SLASH)) ↔
      best_found < trimmedLen app.mountpoint ∧ MountMatches path (trimSlash app.mountpoint) := by
  have hbegins : trimSlash app.mountpoint <+: path ↔
      trimmedLen app.mountpoint ≤ path.length ∧
        path.take (trimmedLen app.mountpoint) = app.mountpoint.take (trimmedLen app.mountpoint) := by
    rw [prefix_iff_eq_take, trimSlash_length]
    refine ⟨fun h => ⟨?_, h.symm⟩, fun h => h.2.symm⟩
    have hlen := congrArg List.length h
    rw [trimSlash_length, length_take] at hlen
    omega
  have hends : (trimmedLen app.mountpoint = path.length ∨
        path[trimmedLen app.mountpoint]? = some SLASH) ↔
      path.length ≤ trimmedLen app.mountpoint ∧ trimmedLen app.mountpoint = path.length ∨
        trimmedLen app.mountpoint < path.length ∧
          path[trimmedLen app.mountpoint]? = some SLASH := by
    constructor
    · rintro (h | h)
      · exact .inl ⟨by omega, h⟩
      · exact .inr ⟨(List.getElem?_eq_some_iff.mp h).1, h⟩
    · exact Or.imp And.right And.right
  unfold MountMatches
  rw [hbegins, trimSlash_length, hends]
  simp only [not_or, not_and, not_not, Nat.not_lt, Nat.not_le, ne_eq]
  constructor
  · rintro ⟨hle, hbest, htake, hslash⟩
    refine ⟨hbest, ⟨hle, htake⟩, ?_⟩
    rcases Nat.lt_or_eq_of_le hle with hlt | heq
    · exact .inr ⟨hlt, hslash hlt⟩
    · exact .inl ⟨by omega, heq⟩
  · rintro ⟨hbest, ⟨hle, htake⟩, hend⟩
    refine ⟨hle, hbest, htake, fun hlt => ?_⟩
    rcases hend with ⟨hge, -⟩ | ⟨-, hslash⟩
    · omega
    · exact hslash

/-! ### The loop -/

section loop

variable {path : Bytes} {beyond : Nat → UInt8} {req : WsgiRequest} {seen : List UpsgiApp}
  {acc : Nat × WsgiRequest}

/-- The state of the loop when it has seen some applications: nothing was
    chosen and the request is as before, or it is rewritten for the first
    application with the longest match. -/
structure Chosen (path : Bytes) (beyond : Nat → UInt8) (req : WsgiRequest) (seen : List UpsgiApp)
    (acc : Nat × WsgiRequest) : Prop where
  longest : ∀ a ∈ seen, MountMatches path (trimSlash a.mountpoint) → trimmedLen a.mountpoint ≤ acc.1
  choice : acc = (0, req) ∨
    ∃ pre app post, seen = pre ++ app :: post ∧ acc.1 = trimmedLen app.mountpoint ∧ 0 < acc.1 ∧
      MountMatches path (trimSlash app.mountpoint) ∧
      (∀ a ∈ pre, trimSlash a.mountpoint ≠ trimSlash app.mountpoint) ∧
      acc.2.script_name = app.mountpoint ∧
      acc.2.path_info = pathInfoBehind path beyond app.mountpoint.length

theorem chosen_nil (path : Bytes) (beyond : Nat → UInt8) (req : WsgiRequest) :
    Chosen path beyond req [] (0, req) :=
  ⟨nofun, .inl rfl⟩

theorem Chosen.consider (h : Chosen path beyond req seen acc) (app : UpsgiApp) :
    Chosen path beyond req (seen ++ [app]) (considerMountpoint path beyond acc app) := by
  have hcandidate := candidate_iff path acc.1 app
  unfold considerMountpoint
  dsimp only
  split
  · next hrejected =>
    refine ⟨fun a ha hmatch => ?_, ?_⟩
    · rcases mem_append.mp ha with ha | ha
      · exact h.longest a ha hmatch
      · obtain rfl := mem_singleton.mp ha
        by_contra hlt
        exact hcandidate.mpr ⟨Nat.not_le.mp hlt, hmatch⟩ hrejected
    · rcases h.choice with heq | ⟨pre, chosen, post, rfl, hrest⟩
      · exact .inl heq
      · exact .inr ⟨pre, chosen, post ++ [app], by simp, hrest⟩
  · next haccepted =>
    obtain ⟨hbest, hmatch⟩ := hcandidate.mp haccepted
    refine ⟨fun a ha hmatch' => ?_, .inr ⟨seen, app, [], rfl, rfl, ?_, hmatch, ?_, rfl, rfl⟩⟩
    · rcases mem_append.mp ha with ha | ha
      · exact Nat.le_of_lt (Nat.lt_of_le_of_lt (h.longest a ha hmatch') hbest)
      · rw [mem_singleton.mp ha]
    · exact Nat.zero_lt_of_lt hbest
    · intro a ha heq
      have hle := h.longest a ha (heq ▸ hmatch)
      have hlen := congrArg List.length heq
      rw [trimSlash_length, trimSlash_length] at hlen
      omega

theorem Chosen.foldl (apps : List UpsgiApp) (h : Chosen path beyond req seen acc) :
    Chosen path beyond req (seen ++ apps) (apps.foldl (considerMountpoint path beyond) acc) := by
  induction apps generalizing seen acc with
  | nil => rwa [append_nil]
  | cons app apps ih =>
    have hnext := ih (h.consider app)
    rwa [append_assoc, singleton_append] at hnext

end loop

/-! ### The rewritten request -/

theorem readMemory_drop {buf : Bytes} (beyond : Nat → UInt8) {offset : Nat} (h : offset ≤ buf.length) :
    readMemory buf beyond offset (buf.length - offset) = buf.drop offset := by
  apply ext_getElem
  · simp [readMemory]
  · intro k hk _
    have hlt : offset + k < buf.length := by
      rw [readMemory, length_map, length_range] at hk
      omega
    simp [readMemory, getElem?_eq_getElem hlt]

/-- A mountpoint without a trailing slash is what was taken from PATH_INFO. -/
theorem pathInfoBehind_append {path mountpoint : Bytes} (beyond : Nat → UInt8)
    (h : mountpoint <+: path) (hpath : path.length ≤ 65535) :
    mountpoint ++ pathInfoBehind path beyond mountpoint.length = path := by
  have hle := h.length_le
  have hlen : (((path.length : Int) - mountpoint.length) % 65536).toNat =
      path.length - mountpoint.length := by omega
  unfold pathInfoBehind
  rw [hlen, readMemory_drop beyond hle]
  exact (prefix_iff_eq_append.mp h)

/-- With a trailing slash one byte too much is taken; where PATH_INFO ends with
    the mountpoint the length becomes 65535. -/
theorem pathInfoBehind_length (path : Bytes) (beyond : Nat → UInt8) (n : Nat) :
    n + (pathInfoBehind path beyond (n + 1)).length ≠ path.length := by
  simp only [pathInfoBehind, readMemory, length_map, length_range]
  omega

/-- What is asked of the rewritten request. -/
structure ScriptNameManaged (apps : List UpsgiApp) (req req' : WsgiRequest) : Prop where
  chosen : ∀ mountpoint, LongestMount apps req.path_info mountpoint →
    trimSlash req'.script_name = mountpoint ∧
      trimSlash req'.script_name ++ req'.path_info = req.path_info
  unchanged : (∀ app ∈ apps, ¬MountMatches req.path_info (trimSlash app.mountpoint)) →
    req'.script_name = req.script_name ∧ req'.path_info = req.path_info

theorem addScriptNameSlot_fields {cfg : VarsConfig} {req req' : WsgiRequest}
    (h : addScriptNameSlot cfg req = some req') :
    req'.script_name = req.script_name ∧ req'.path_info = req.path_info := by
  unfold addScriptNameSlot at h
  split at h
  · split at h
    · cases h
    · cases h
      exact ⟨rfl, rfl⟩
  · cases h
    exact ⟨rfl, rfl⟩

/-- The first element with a property is one. -/
theorem first_unique {α : Type} {p : α → Prop} {a b : α} {pre pre' post post' : List α}
    (h : pre ++ a :: post = pre' ++ b :: post') (ha : p a) (hb : p b) (hpre : ∀ x ∈ pre, ¬p x)
    (hpre' : ∀ x ∈ pre', ¬p x) : a = b := by
  induction pre generalizing pre' with
  | nil =>
    cases pre' with
    | nil => exact (List.cons.inj h).1
    | cons y pre' =>
      obtain ⟨rfl, -⟩ := List.cons.inj h
      exact absurd ha (hpre' a mem_cons_self)
  | cons x pre ih =>
    cases pre' with
    | nil =>
      obtain ⟨rfl, -⟩ := List.cons.inj h
      exact absurd hb (hpre x mem_cons_self)
    | cons y pre' =>
      exact ih (List.cons.inj h).2 (fun z hz => hpre z (mem_cons_of_mem _ hz))
        fun z hz => hpre' z (mem_cons_of_mem _ hz)

/-- The application is the first one with the longest matching mountpoint. -/
structure FirstLongest (apps : List UpsgiApp) (path : Bytes) (app : UpsgiApp) : Prop where
  longest : LongestMount apps path (trimSlash app.mountpoint)
  first : ∃ pre post, apps = pre ++ app :: post ∧
    ∀ a ∈ pre, trimSlash a.mountpoint ≠ trimSlash app.mountpoint

section firstLongest

variable {apps : List UpsgiApp} {path mountpoint : Bytes} {app app' : UpsgiApp}

theorem FirstLongest.mem (h : FirstLongest apps path app) : app ∈ apps := by
  obtain ⟨pre, post, rfl, -⟩ := h.first
  exact mem_append_right _ mem_cons_self

theorem LongestMount.unique {other : Bytes} (h : LongestMount apps path mountpoint)
    (h' : LongestMount apps path other) : mountpoint = other := by
  obtain ⟨a, ha, rfl⟩ := h.isMount
  obtain ⟨b, hb, rfl⟩ := h'.isMount
  exact h.isMatch.eq h'.isMatch
    (Nat.le_antisymm (h'.longest a ha h.isMatch) (h.longest b hb h'.isMatch))

theorem FirstLongest.unique (h : FirstLongest apps path app) (h' : FirstLongest apps path app') :
    app = app' := by
  have heq := h.longest.unique h'.longest
  obtain ⟨pre, post, happs, hpre⟩ := h.first
  obtain ⟨pre', post', happs', hpre'⟩ := h'.first
  rw [← heq] at hpre'
  exact first_unique (p := fun a => trimSlash a.mountpoint = trimSlash app.mountpoint)
    (happs.symm.trans happs') rfl heq.symm hpre hpre'

theorem LongestMount.first (h : LongestMount apps path mountpoint) :
    ∃ app, FirstLongest apps path app ∧ trimSlash app.mountpoint = mountpoint := by
  have hsome : (apps.find? fun a => decide (trimSlash a.mountpoint = mountpoint)).isSome := by
    obtain ⟨a, ha, heq⟩ := h.isMount
    exact find?_isSome.mpr ⟨a, ha, decide_eq_true heq⟩
  obtain ⟨app, hfind⟩ := Option.isSome_iff_exists.mp hsome
  obtain ⟨happ, pre, post, happs, hpre⟩ := find?_eq_some_iff_append.mp hfind
  obtain rfl := of_decide_eq_true happ
  exact ⟨app, ⟨h, pre, post, happs, fun a ha => by simpa using hpre a ha⟩, rfl⟩

theorem trimSlash_eq_nil (h : trimmedLen mountpoint ≤ 0) :
    trimSlash mountpoint = [] :=
  eq_nil_of_length_eq_zero (by rw [trimSlash_length]; omega)

end firstLongest

/-- The outcome of the loop: the fields are as before and no mountpoint but the
    root matches, or they are those for the first application with the longest
    match. -/
inductive MountOutcome (apps : List UpsgiApp) (beyond : Nat → UInt8) (req req' : WsgiRequest) : Prop
  | kept (hscript : req'.script_name = req.script_name) (hinfo : req'.path_info = req.path_info)
      (hroot : ∀ app ∈ apps, MountMatches req.path_info (trimSlash app.mountpoint) →
        trimSlash app.mountpoint = [])
  | rewritten (app : UpsgiApp) (hfirst : FirstLongest apps req.path_info app)
      (hne : trimSlash app.mountpoint ≠ []) (hscript : req'.script_name = app.mountpoint)
      (hinfo : req'.path_info = pathInfoBehind req.path_info beyond app.mountpoint.length)

theorem Chosen.outcome {beyond : Nat → UInt8} {req req0 : WsgiRequest} {apps : List UpsgiApp}
    {acc : Nat × WsgiRequest} (h : Chosen req.path_info beyond req0 apps acc)
    (hscript : req0.script_name = req.script_name) (hinfo : req0.path_info = req.path_info) :
    MountOutcome apps beyond req acc.2 := by
  rcases h.choice with rfl | ⟨pre, app, post, happs, hbest, hpos, hmatch, hpre, hname, hbehind⟩
  · exact .kept hscript hinfo fun app happ hmatch => trimSlash_eq_nil (h.longest app happ hmatch)
  · refine .rewritten app ⟨⟨⟨app, by simp [happs], rfl⟩, hmatch, fun a ha hmatch' => ?_⟩, pre, post,
      happs, hpre⟩ (fun hnil => ?_) hname hbehind
    · rw [trimSlash_length, trimSlash_length, ← hbest]
      exact h.longest a ha hmatch'
    · rw [hbest, ← trimSlash_length, hnil] at hpos
      exact absurd hpos (Nat.lt_irrefl 0)

theorem manageScriptName_outcome {cfg : VarsConfig} {apps : List UpsgiApp} {beyond : Nat → UInt8}
    {req req' : WsgiRequest} (hpath : req.path_info ≠ []) (hpos : req.path_info_pos ≠ -1)
    (h : manageScriptName cfg apps beyond req = some req') : MountOutcome apps beyond req req' := by
  unfold manageScriptName at h
  split at h
  · obtain ⟨req0, hslot, rfl⟩ := Option.map_eq_some_iff.mp h
    obtain ⟨hscript, hinfo⟩ := addScriptNameSlot_fields hslot
    rw [hinfo]
    exact ((chosen_nil req.path_info beyond req0).foldl apps).outcome hscript hinfo
  · next hnot =>
    cases h
    have hlen := length_pos_iff.mpr hpath
    have hnil : apps = [] := eq_nil_of_length_eq_zero (by
      by_contra hne
      exact hnot ⟨by omega, hlen, hpos⟩)
    exact .kept rfl rfl fun app happ => absurd (hnil ▸ happ) not_mem_nil

/-- The request is rewritten as it should be exactly if the first application
    with the longest match has a mountpoint without a trailing slash; where only
    the root matches, nothing is rewritten, which is right if SCRIPT_NAME was
    empty before. -/
theorem script_name_managed_iff {cfg : VarsConfig} {apps : List UpsgiApp} {beyond : Nat → UInt8}
    {req req' : WsgiRequest} (hslash : req.path_info.head? = some SLASH)
    (hlen : req.path_info.length ≤ 65535) (hpos : req.path_info_pos ≠ -1)
    (h : manageScriptName cfg apps beyond req = some req') :
    ScriptNameManaged apps req req' ↔
      ∀ app, FirstLongest apps req.path_info app →
        (trimSlash app.mountpoint = [] → trimSlash req.script_name = []) ∧
          (trimSlash app.mountpoint ≠ [] → app.mountpoint.getLast? ≠ some SLASH) := by
  have hnonempty : req.path_info ≠ [] := by
    intro hnil
    rw [hnil] at hslash
    cases hslash
  constructor
  · intro hmanaged app hfirst
    obtain ⟨htrim, hjoin⟩ := hmanaged.chosen _ hfirst.longest
    cases manageScriptName_outcome hnonempty hpos h with
    | kept hscript _ hroot =>
      have hnil := hroot app hfirst.mem hfirst.longest.isMatch
      exact ⟨fun _ => by rw [← hscript, htrim, hnil], fun hne => absurd hnil hne⟩
    | rewritten app' hfirst' hne hscript hinfo =>
      obtain rfl := hfirst.unique hfirst'
      refine ⟨fun hnil => absurd hnil hne, fun _ hlast => ?_⟩
      -- the lengths show that a byte was taken too much
      have hsize := congrArg List.length hjoin
      rw [length_append, hinfo, hscript, trimSlash_of_slash hlast] at hsize
      exact pathInfoBehind_length _ _ _ hsize
  · intro hcond
    cases manageScriptName_outcome hnonempty hpos h with
    | kept hscript hinfo hroot =>
      refine ⟨fun mountpoint hmount => ?_, fun _ => ⟨hscript, hinfo⟩⟩
      obtain ⟨app, hfirst, rfl⟩ := hmount.first
      have hnil := hroot app hfirst.mem hmount.isMatch
      rw [hscript, hinfo, (hcond app hfirst).1 hnil, hnil]
      exact ⟨rfl, rfl⟩
    | rewritten app hfirst hne hscript hinfo =>
      refine ⟨fun mountpoint hmount => ?_, fun hnone => ?_⟩
      · obtain rfl := hfirst.longest.unique hmount
        rw [hscript, hinfo]
        refine ⟨rfl, ?_⟩
        have htrim := trimSlash_of_not_slash ((hcond app hfirst).2 hne)
        have hbegins := hmount.isMatch.1
        rw [htrim] at hbegins ⊢
        exact pathInfoBehind_append beyond hbegins hlen
      · exact absurd hfirst.longest.isMatch (hnone app hfirst.mem)

/-- A request for a path, with nothing but PATH_INFO in its table. -/
def pathRequest (path : Bytes) : WsgiRequest :=
  { hvec := [lit "PATH_INFO", path], var_cnt := 2, path_info := path, path_info_pos := 1 }

/-- An application at `/app`. -/
def appBelowRoot : UpsgiApp := ⟨lit "/app", by decide⟩

/-- The same with a trailing slash. -/
def appWithSlash : UpsgiApp := ⟨lit "/app/", by decide⟩

def smallTable : VarsConfig := ⟨100, 0, false, false, false, fun _ => false⟩

theorem script_name_managed_app :
    ∃ req', manageScriptName smallTable [appBelowRoot] (fun _ => 0) (pathRequest (lit "/app/foo")) =
        some req' ∧
      ScriptNameManaged [appBelowRoot] (pathRequest (lit "/app/foo")) req' := by
  obtain ⟨req', hreq⟩ : ∃ req', manageScriptName smallTable [appBelowRoot] (fun _ => 0)
      (pathRequest (lit "/app/foo")) = some req' := ⟨_, rfl⟩
  refine ⟨req', hreq, (script_name_managed_iff (by decide) (by decide) (by decide) hreq).mpr ?_⟩
  intro app hfirst
  obtain rfl := mem_singleton.mp hfirst.mem
  exact ⟨nofun, fun _ => by decide⟩

/-- The slash behind the mountpoint is lost: SCRIPT_NAME is `/app/` and PATH_INFO
    is `foo`. -/
theorem script_name_slash_lost :
    ∃ req', manageScriptName smallTable [appWithSlash] (fun _ => 0) (pathRequest (lit "/app/foo")) =
        some req' ∧
      ¬ScriptNameManaged [appWithSlash] (pathRequest (lit "/app/foo")) req' := by
  refine ⟨_, rfl, fun hmanaged => ?_⟩
  have hmount : LongestMount [appWithSlash] (lit "/app/foo") (lit "/app") :=
    { isMount := ⟨appWithSlash, mem_singleton_self _, by decide⟩
      isMatch := ⟨by decide, .inr (by decide)⟩
      longest := fun app happ _ => by
        rw [mem_singleton.mp happ]
        decide }
  exact absurd (hmanaged.chosen _ hmount).2 (by decide)

end Upsgi
