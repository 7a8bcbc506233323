import Upsgi.Core.BodyFraming

/-! # The grammar of variable packets

    A packet is meant to be a concatenation of entries: the key length, a
    non-empty key, the value length and the value.  The variable loop reads
    such a packet from its first byte to its last.  What it does on any other
    packet depends on one check that has no error branch: a key that does not
    end before the packet does is neither stored nor refused, and the loop
    reads on right behind the length of that key.

    The result of this module says for which packets acceptance means what it
    should: the packet is a concatenation of entries, and the variable table
    holds these entries.
-/

namespace Upsgi

open Framing List

/-! ### Entries -/

/-- Pairs that a packet can hold. -/
def Entries (es : List Pair) : Prop :=
  ∀ e ∈ es, Fits e ∧ e.1 ≠ []

theorem entries_nil : Entries [] := by
  nofun

theorem entries_cons {e : Pair} {es : List Pair} :
    Entries (e :: es) ↔ (Fits e ∧ e.1 ≠ []) ∧ Entries es :=
  forall_mem_cons

/-- A variable that a round finds was written there as a frame. -/
theorem cutVar_var_eq {buf rest : Bytes} {e : Pair} (h : cutVar buf = .var e rest) :
    buf = frame e ++ rest := by
  obtain ⟨a, b, x, y, rfl, hkey, hval, -⟩ := cutVar_var_shape h
  simp only [frame, hkey, hval, le16_fromLe16, append_assoc, cons_append, nil_append]

/-- Entries at the head of a packet of entries are its first ones. -/
theorem packet_cancel : ∀ (es fs : List Pair) (rest : Bytes), Entries es → Entries fs →
    packet fs = packet es ++ rest → ∃ gs, fs = es ++ gs ∧ rest = packet gs
  | [], fs, rest, _, _, h => ⟨fs, rfl, by rw [h]; rfl⟩
  | e :: es, [], rest, _, _, h => by
      have hlen := congrArg List.length h
      simp only [packet_nil, packet_cons, length_nil, length_append, frame_length,
        frameSize] at hlen
      omega
  | e :: es, f :: fs, rest, hes, hfs, h => by
      rw [entries_cons] at hes hfs
      rw [packet_cons, packet_cons, append_assoc] at h
      -- the first round finds both first entries
      have hf := cutVar_frame f (packet fs) hfs.1.1 hfs.1.2
      have he := cutVar_frame e (packet es ++ rest) hes.1.1 hes.1.2
      rw [h, he] at hf
      obtain ⟨rfl, hrest⟩ := Cut.var.inj hf
      obtain ⟨gs, hgs, hpacket⟩ := packet_cancel es fs rest hes.2 hfs.2 hrest.symm
      exact ⟨gs, by rw [hgs]; rfl, hpacket⟩

/-! ### Keys that end -/

/-- Wherever an entry begins in the packet, its key ends before the packet does. -/
def KeysEnd (buf : Bytes) : Prop :=
  ∀ es a b rest, Entries es → buf = packet es ++ a :: b :: rest → rest ≠ [] →
    fromLe16 a b ≠ 0 → fromLe16 a b < rest.length

/-- No round of the loop reads a second time what it took for a key. -/
def NeverRereads (buf : Bytes) : Prop :=
  ∀ es rest again, Entries es → buf = packet es ++ rest → cutVar rest ≠ .skip again

theorem cutVar_skip_iff (buf again : Bytes) :
    cutVar buf = .skip again ↔
      ∃ a b, buf = a :: b :: again ∧ again ≠ [] ∧ fromLe16 a b ≠ 0 ∧
        again.length ≤ fromLe16 a b := by
  constructor
  · intro h
    unfold cutVar at h
    split at h
    · next a b c tail =>
      split at h
      · cases h
      · next hnz =>
        split at h
        · unfold cutValue at h
          split at h
          · split at h <;> cases h
          · cases h
        · next hge =>
          cases h
          exact ⟨a, b, rfl, by simp, hnz, by omega⟩
    · cases h
  · intro h
    obtain ⟨a, b, rfl, hne, hnz, hge⟩ := h
    obtain ⟨c, tail, rfl⟩ := exists_cons_of_ne_nil hne
    rw [cutVar, if_neg hnz, if_neg (by omega)]

theorem keysEnd_iff (buf : Bytes) : KeysEnd buf ↔ NeverRereads buf := by
  constructor
  · intro h es rest again hes hbuf hskip
    obtain ⟨a, b, rfl, hne, hnz, hge⟩ := (cutVar_skip_iff _ _).mp hskip
    have := h es a b again hes hbuf hne hnz
    omega
  · intro h es a b rest hes hbuf hne hnz
    apply Nat.lt_of_not_le
    intro hge
    exact h es _ rest hes hbuf ((cutVar_skip_iff _ _).mpr ⟨a, b, rfl, hne, hnz, hge⟩)

theorem NeverRereads.rest {buf rest : Bytes} {e : Pair} (h : NeverRereads buf)
    (hcut : cutVar buf = .var e rest) : NeverRereads rest := by
  intro es rest' again hes hrest
  have hfit := cutVar_var hcut
  apply h (e :: es) rest' again (entries_cons.mpr ⟨⟨hfit.1, hfit.2.1⟩, hes⟩)
  rw [cutVar_var_eq hcut, hrest, packet_cons, append_assoc]

/-- A packet of entries is never read twice. -/
theorem neverRereads_packet {es : List Pair} (hes : Entries es) : NeverRereads (packet es) := by
  intro fs rest again hfs hsplit hskip
  obtain ⟨gs, rfl, rfl⟩ := packet_cancel fs es rest hfs hes hsplit
  cases gs with
  | nil => cases hskip
  | cons g gs =>
    have hg := hes g (by simp)
    rw [packet_cons, cutVar_frame g _ hg.1 hg.2] at hskip
    cases hskip

/-- A packet that is cut into variables without reading anything twice is the
    concatenation of these variables. -/
theorem varLoop_collect_packet : ∀ (fuel : Nat) (buf : Bytes) (es : List Pair),
    varLoop collectVar fuel [] buf = some es → NeverRereads buf → buf = packet es
  | _, [], es, h, _ => by
      rw [varLoop_nil] at h
      cases h
      rfl
  | 0, _ :: _, es, h, _ => by
      cases h
  | fuel + 1, b :: buf, es, h, hread => by
      rw [varLoop] at h
      cases hcut : cutVar (b :: buf) with
      | bad =>
        rw [hcut] at h
        cases h
      | skip again => exact absurd hcut (hread [] _ again entries_nil rfl)
      | var e rest =>
        simp only [hcut, collectVar] at h
        rw [varLoop_collect_append] at h
        obtain ⟨fs, hfs, rfl⟩ := Option.map_eq_some_iff.mp h
        have ih := varLoop_collect_packet fuel rest fs hfs (hread.rest hcut)
        rw [cutVar_var_eq hcut, ih]
        rfl

/-! ### What the hooks leave in the table -/

/-- The value bytes as they are after the hooks have run: `UPSGI_SETENV` cuts
    the value at its first `=` in place. -/
def storedValue (e : Pair) : Bytes :=
  if e.1 = lit "UPSGI_SETENV" then (upsgi_setenv {} e.2).2 else e.2

/-- The entry as it stands in the table. -/
def storedVar (e : Pair) : Pair :=
  (e.1, storedValue e)

/-- A hook that succeeds changes neither the table nor its counter, and leaves
    `value` where the value was. -/
def LeavesTable (req : WsgiRequest) (value : Bytes) (r : Option (WsgiRequest × Bytes)) : Prop :=
  ∀ req' value', r = some (req', value') →
    req'.hvec = req.hvec ∧ req'.var_cnt = req.var_cnt ∧ value' = value

theorem leavesTable_none {req : WsgiRequest} {value : Bytes} : LeavesTable req value none := by
  nofun

theorem leavesTable_some {req req' : WsgiRequest} {value : Bytes}
    (hvec : req'.hvec = req.hvec) (hcnt : req'.var_cnt = req.var_cnt) :
    LeavesTable req value (some (req', value)) := by
  intro req'' value' h
  cases h
  exact ⟨hvec, hcnt, rfl⟩

theorem leavesTable_ite {req : WsgiRequest} {value : Bytes} {c : Prop} [Decidable c]
    {a b : Option (WsgiRequest × Bytes)} (ha : LeavesTable req value a)
    (hb : LeavesTable req value b) : LeavesTable req value (if c then a else b) := by
  split
  · exact ha
  · exact hb

section hooks

variable (cfg : VarsConfig) (req : WsgiRequest) (key buf : Bytes)

theorem content_length_leavesTable : LeavesTable req buf (upsgi_content_length cfg req buf) := by
  unfold upsgi_content_length
  split
  · exact leavesTable_none
  · split_ifs
    · exact leavesTable_none
    · exact leavesTable_none
    · exact leavesTable_some rfl rfl

theorem transfer_encoding_leavesTable {req : WsgiRequest} {req' : WsgiRequest} {buf : Bytes}
    (hvec : req'.hvec = req.hvec) (hcnt : req'.var_cnt = req.var_cnt) :
    LeavesTable req buf (upsgi_transfer_encoding req' buf) := by
  unfold upsgi_transfer_encoding
  split_ifs
  · exact leavesTable_none
  · exact leavesTable_some hvec hcnt
  · exact leavesTable_some hvec hcnt

/-- Every hook but that of the length of `UPSGI_SETENV` leaves the value alone. -/
theorem hook_leavesTable {n : Nat} {hook : Hook} (h : upsgi_proto_hooks_setup cfg n = some hook)
    (h12 : n ≠ 12) : LeavesTable req buf (hook req key buf) := by
  unfold upsgi_proto_hooks_setup at h
  split at h
  case h_5 => nomatch h12
  case h_13 => cases h
  all_goals cases h
  case h_3 =>
    unfold upsgi_proto_check_10
    split_ifs <;> exact leavesTable_some rfl rfl
  case h_7 =>
    apply leavesTable_ite (leavesTable_some rfl rfl)
    apply leavesTable_ite (content_length_leavesTable cfg req buf)
    repeat' apply leavesTable_ite
    all_goals exact leavesTable_some rfl rfl
  case h_10 =>
    unfold upsgi_proto_check_20
    split_ifs <;> exact leavesTable_some rfl rfl
  case h_11 =>
    unfold upsgi_proto_check_22
    split_ifs <;>
      first | exact leavesTable_some rfl rfl | exact transfer_encoding_leavesTable rfl rfl
  -- the others set one field in each branch
  all_goals
    repeat' apply leavesTable_ite
    all_goals exact leavesTable_some rfl rfl

theorem setenv_leavesTable :
    LeavesTable req (upsgi_setenv {} buf).2 (some (upsgi_setenv req buf)) := by
  unfold upsgi_setenv
  dsimp only
  split
  · exact leavesTable_some rfl rfl
  · split_ifs <;> exact leavesTable_some rfl rfl

theorem check_12_leavesTable {k rest : Bytes} (hk : k.length = 12) :
    LeavesTable req (storedValue (k, buf)) (upsgi_proto_check_12 cfg req (k ++ rest) buf) := by
  have hkey : ∀ x : Bytes, x.length = 12 → (upsgi_proto_key x (k ++ rest) = true ↔ k = x) :=
    fun x hx => upsgi_proto_key_iff rest (hk.trans hx.symm)
  by_cases henv : k = lit "UPSGI_SETENV"
  · -- none of the names before it is the same
    have hno : ∀ x : Bytes, x.length = 12 → x ≠ lit "UPSGI_SETENV" →
        upsgi_proto_key x (k ++ rest) = false := by
      intro x hx hne
      rw [Bool.eq_false_iff]
      intro h
      exact hne (((hkey x hx).mp h).symm.trans henv)
    have hyes : upsgi_proto_key (lit "UPSGI_SETENV") (k ++ rest) = true :=
      (hkey _ (by decide)).mpr henv
    have hcheck : upsgi_proto_check_12 cfg req (k ++ rest) buf = some (upsgi_setenv req buf) := by
      unfold upsgi_proto_check_12
      rw [hno (lit "QUERY_STRING") (by decide) (by decide),
        hno (lit "CONTENT_TYPE") (by decide) (by decide),
        hno (lit "HTTP_REFERER") (by decide) (by decide),
        hno (lit "UPSGI_SCHEME") (by decide) (by decide),
        hno (lit "UPSGI_SCRIPT") (by decide) (by decide),
        hno (lit "UPSGI_MODULE") (by decide) (by decide),
        hno (lit "UPSGI_PYHOME") (by decide) (by decide), hyes]
      simp
    rw [hcheck, storedValue, if_pos henv]
    exact setenv_leavesTable req buf
  · have hno : ¬ upsgi_proto_key (lit "UPSGI_SETENV") (k ++ rest) = true :=
      (hkey _ (by decide)).not.mpr henv
    rw [storedValue, if_neg henv]
    unfold upsgi_proto_check_12
    rw [if_neg hno]
    repeat' apply leavesTable_ite
    all_goals exact leavesTable_some rfl rfl

end hooks

/-- The hook that is run for a variable leaves its stored value. -/
theorem runHook_leavesTable (cfg : VarsConfig) (req : WsgiRequest) (e : Pair) :
    LeavesTable req (storedValue e) (runHook (upsgi_proto_hooks_setup cfg) req e) := by
  obtain ⟨k, v⟩ := e
  by_cases h12 : k.length = 12
  · simp only [runHook, h12, upsgi_proto_hooks_setup]
    rw [if_pos (by decide), append_assoc]
    exact check_12_leavesTable cfg req v h12
  · have hstored : storedValue (k, v) = v := by
      apply if_neg
      intro hk
      exact h12 (by rw [show k = lit "UPSGI_SETENV" from hk]; decide)
    rw [hstored]
    unfold runHook
    split
    · cases hhook : upsgi_proto_hooks_setup cfg k.length with
      | none => exact leavesTable_some rfl rfl
      | some hook => exact hook_leavesTable cfg req _ v hhook h12
    · exact leavesTable_some rfl rfl

/-- The stored value is the value itself unless an `=` was cut out of it. -/
theorem setenv_value_iff (buf : Bytes) : (upsgi_setenv {} buf).2 = buf ↔ 61 ∉ buf := by
  unfold upsgi_setenv
  dsimp only
  by_cases hmem : 61 ∈ buf
  · obtain ⟨name, value, rfl, hname⟩ := eq_append_cons_of_mem hmem
    rw [takeWhile_ne_append value hname, drop_left]
    -- the table value has a NUL byte where the packet has the `=`
    have hne : name ++ 0 :: value ≠ name ++ 61 :: value := by
      intro h
      exact absurd (List.cons.inj (append_cancel_left h)).1 (by decide)
    simp only [hmem, not_true_eq_false, iff_false]
    split <;> exact hne
  · rw [takeWhile_ne_self hmem, drop_length]
    simp [hmem]

theorem storedVar_eq_iff (e : Pair) :
    storedVar e = e ↔ ¬ (e.1 = lit "UPSGI_SETENV" ∧ 61 ∈ e.2) := by
  obtain ⟨k, v⟩ := e
  unfold storedVar storedValue
  by_cases hk : k = lit "UPSGI_SETENV"
  · simp [hk, setenv_value_iff]
  · simp [hk]

/-- The variables that no hook changes. -/
theorem map_storedVar_iff (es : List Pair) :
    es.map storedVar = es ↔ ∀ e ∈ es, ¬ (e.1 = lit "UPSGI_SETENV" ∧ 61 ∈ e.2) := by
  induction es with
  | nil => simp
  | cons e es ih => rw [map_cons, List.cons.injEq, storedVar_eq_iff, ih, forall_mem_cons]

/-! ### The table -/

/-- Step: a variable adds two entries at the end, as long as the counter does
    not wrap. -/
theorem storeVar_table {cfg : VarsConfig} {req req' : WsgiRequest} {e : Pair}
    (hlen : req.hvec.length = req.var_cnt) (h16 : req.var_cnt + 2 < 65536)
    (h : storeVar cfg (upsgi_proto_hooks_setup cfg) req e = some req') :
    req'.hvec = req.hvec ++ [e.1, storedValue e] ∧ req'.var_cnt = req.var_cnt + 2 := by
  obtain ⟨req1, value, hhook, rfl⟩ := storeVar_some h
  obtain ⟨hvec1, hcnt1, rfl⟩ := runHook_leavesTable cfg _ e req1 value hhook
  dsimp only at hvec1 hcnt1 ⊢
  have hcnt : (req1.var_cnt + 1) % 65536 = req.var_cnt + 1 := by
    rw [hcnt1]
    exact Nat.mod_eq_of_lt (by omega)
  rw [setVec_length e.1 hlen] at hvec1
  rw [hcnt, hvec1, setVec_length _ (by simp [hlen])]
  constructor
  · simp
  · exact Nat.mod_eq_of_lt (by omega)

/-- Run: so do all of them. -/
theorem foldlM_storeVar_table {cfg : VarsConfig} (es : List Pair) (req req' : WsgiRequest)
    (hlen : req.hvec.length = req.var_cnt) (h16 : req.var_cnt + 2 * es.length < 65536)
    (h : es.foldlM (storeVar cfg (upsgi_proto_hooks_setup cfg)) req = some req') :
    req'.hvec = req.hvec ++ tableOf (es.map storedVar) ∧
      req'.var_cnt = req.var_cnt + 2 * es.length := by
  induction es generalizing req with
  | nil =>
    cases h
    simp
  | cons e es ih =>
    obtain ⟨req1, h1, h2⟩ := Option.bind_eq_some_iff.mp h
    rw [length_cons] at h16
    obtain ⟨hvec, hcnt⟩ := storeVar_table hlen (by omega) h1
    obtain ⟨hvec', hcnt'⟩ := ih req1 (by rw [hvec, hcnt]; simp [hlen]) (by omega) h2
    constructor
    · rw [hvec', hvec]
      simp [storedVar]
    · rw [hcnt', hcnt, length_cons]
      omega

theorem tableOf_injective : ∀ {es fs : List Pair}, tableOf es = tableOf fs → es = fs
  | [], [], _ => rfl
  | [], f :: fs, h => by cases h
  | e :: es, [], h => by cases h
  | e :: es, f :: fs, h => by
      rw [tableOf_cons, tableOf_cons, List.cons.injEq, List.cons.injEq] at h
      rw [Prod.ext h.1 h.2.1, tableOf_injective h.2.2]

/-- The counter always stays within its sixteen bits. -/
theorem foldlM_storeVar_var_cnt {cfg : VarsConfig} {hooks : HookTable} (es : List Pair)
    (req req' : WsgiRequest) (h16 : req.var_cnt < 65536)
    (h : es.foldlM (storeVar cfg hooks) req = some req') : req'.var_cnt < 65536 := by
  induction es generalizing req with
  | nil =>
    cases h
    exact h16
  | cons e es ih =>
    obtain ⟨req1, h1, h2⟩ := Option.bind_eq_some_iff.mp h
    apply ih req1 _ h2
    obtain ⟨_, _, _, rfl⟩ := storeVar_some h1
    exact Nat.mod_lt _ (by decide)

/-! ### Acceptance -/

/-- What acceptance is meant to say: the packet is a concatenation of entries,
    the table holds their keys and values in order, and no byte was read twice. -/
def ReadExactly (buf : Bytes) (r : WsgiRequest) : Prop :=
  (∃ es, Entries es ∧ buf = packet es ∧ varTable r = tableOf es) ∧ NeverRereads buf

/-- The packets on which the loop can be relied upon: the keys end, there are
    fewer entries than a sixteen-bit counter of table slots can count, and no
    `UPSGI_SETENV` holds an `=`. -/
structure Unambiguous (buf : Bytes) : Prop where
  keys_end : KeysEnd buf
  few : ∀ es rest, Entries es → buf = packet es ++ rest → es.length < 32768
  no_setenv : ∀ es rest, Entries es → buf = packet es ++ rest →
    ∀ e ∈ es, ¬ (e.1 = lit "UPSGI_SETENV" ∧ 61 ∈ e.2)

/-- The table that fewer than `2 ^ 15` variables leave behind. -/
theorem varTable_eq {cfg : VarsConfig} {es : List Pair} {r : WsgiRequest}
    (hfew : es.length < 32768)
    (h : es.foldlM (storeVar cfg (upsgi_proto_hooks_setup cfg)) {} = some r) :
    varTable r = tableOf (es.map storedVar) := by
  obtain ⟨hvec, hcnt⟩ := foldlM_storeVar_table es {} r rfl (by show 0 + _ < _; omega) h
  unfold varTable
  rw [hvec, hcnt]
  show List.take (0 + 2 * es.length) ([] ++ tableOf (es.map storedVar)) = _
  rw [nil_append, take_of_length_le]
  rw [tableOf_length, length_map]
  omega

/-- Whatever the size of the table, an accepted packet was read exactly if and
    only if it is an unambiguous one. -/
theorem parse_vars_read_exactly_iff {cfg : VarsConfig} {buf : Bytes} {r : WsgiRequest}
    (h : upsgi_parse_vars_loop cfg (upsgi_proto_hooks_setup cfg) {} buf = some r) :
    ReadExactly buf r ↔ Unambiguous buf := by
  rw [upsgi_parse_vars_loop_eq, Option.bind_eq_some_iff] at h
  obtain ⟨es, hcut, hfold⟩ := h
  have hes : Entries es := packetVars_fits hcut
  constructor
  · intro hexact
    obtain ⟨⟨fs, hfs, rfl, htable⟩, hread⟩ := hexact
    obtain rfl : fs = es := Option.some.inj ((packetVars_packet fs hfs).symm.trans hcut)
    have hfew : fs.length < 32768 := by
      have h16 := foldlM_storeVar_var_cnt fs {} r (by decide) hfold
      have hlen := congrArg List.length htable
      rw [tableOf_length, varTable, length_take] at hlen
      omega
    have hstored : fs.map storedVar = fs :=
      tableOf_injective ((varTable_eq hfew hfold).symm.trans htable)
    refine ⟨(keysEnd_iff _).mpr hread, ?_, ?_⟩
    · intro gs rest hgs hsplit
      obtain ⟨more, rfl, _⟩ := packet_cancel gs fs rest hgs hfs hsplit
      rw [length_append] at hfew
      omega
    · intro gs rest hgs hsplit e he
      obtain ⟨more, rfl, _⟩ := packet_cancel gs fs rest hgs hfs hsplit
      exact (map_storedVar_iff _).mp hstored e (mem_append_left more he)
  · intro hplain
    have hread := (keysEnd_iff buf).mp hplain.keys_end
    have hbuf : buf = packet es := varLoop_collect_packet _ buf es hcut hread
    refine ⟨⟨es, hes, hbuf, ?_⟩, hread⟩
    have hwhole : buf = packet es ++ [] := by rw [hbuf, append_nil]
    have hstored : es.map storedVar = es :=
      (map_storedVar_iff es).mpr (hplain.no_setenv es [] hes hwhole)
    rw [varTable_eq (hplain.few es [] hes hwhole) hfold, hstored]

/-- A packet of two variables is read exactly. -/
theorem parse_vars_read_exactly_two :
    ∃ cfg buf r, upsgi_parse_vars_loop cfg (upsgi_proto_hooks_setup cfg) {} buf = some r ∧
      Unambiguous buf := by
  let cfg : VarsConfig := ⟨100, 0, false, false, false, fun _ => false⟩
  let es : List Pair := [(lit "A", lit "x"), (lit "B", [])]
  have hes : Entries es := by
    intro e he
    rcases mem_cons.mp he with rfl | he
    · exact ⟨by decide, by decide⟩
    · rw [mem_singleton.mp he]
      exact ⟨by decide, by decide⟩
  obtain ⟨r, hr, htable⟩ : ∃ r,
      upsgi_parse_vars_loop cfg (upsgi_proto_hooks_setup cfg) {} (packet es) = some r ∧
        varTable r = tableOf es :=
    ⟨_, rfl, rfl⟩
  have hexact : ReadExactly (packet es) r := ⟨⟨es, hes, rfl, htable⟩, neverRereads_packet hes⟩
  exact ⟨cfg, packet es, r, hr, (parse_vars_read_exactly_iff hr).mp hexact⟩

/-- A key length that reaches the end of the packet: the loop reads on behind
    it and accepts what it finds there. -/
theorem parse_vars_rereads_overlong_key :
    ∃ cfg r, upsgi_parse_vars_loop cfg (upsgi_proto_hooks_setup cfg) {} [5, 0, 1, 0, 65, 0, 0] =
        some r ∧
      varTable r = [[65], []] ∧
      cutVar [5, 0, 1, 0, 65, 0, 0] = .skip [1, 0, 65, 0, 0] ∧
      ¬ ∃ es, Entries es ∧ [5, 0, 1, 0, 65, 0, 0] = packet es := by
  refine ⟨⟨100, 0, false, false, false, fun _ => false⟩, _, rfl, rfl, rfl, ?_⟩
  intro h
  obtain ⟨es, hes, hpacket⟩ := h
  have hcut := packetVars_packet es hes
  rw [← hpacket] at hcut
  obtain rfl : [([65], [])] = es := Option.some.inj hcut
  nomatch hpacket

end Upsgi
