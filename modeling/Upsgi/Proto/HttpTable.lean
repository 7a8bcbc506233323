import Upsgi.Proto.HttpParse

/-! # The header table

    What the table holds after the header lines of a block were entered:
    one slot for each field name up to letter case, in which the values of
    all fields of that name are joined.
-/

namespace Upsgi

open Framing List

/-! ### Scanning -/

variable {a b key : Bytes} {f : HeaderLine} {fs : List HeaderLine} {t t' : List HeaderSlot}

/-- A scan stops at the first delimiter. -/
theorem scanTo_append {c : UInt8} (b : Bytes) (h : c ∉ a) :
    scanTo c (a ++ c :: b) = some (a, b) := by
  unfold scanTo
  simp only [takeWhile_ne_append b h, drop_left]

theorem scanTo_none {c : UInt8} {ptr : Bytes} (h : c ∉ ptr) : scanTo c ptr = none := by
  unfold scanTo
  simp only [takeWhile_ne_self h, drop_length]

theorem scanTo_cases (c : UInt8) (ptr : Bytes) :
    (c ∉ ptr ∧ scanTo c ptr = none) ∨
      ∃ a b, ptr = a ++ c :: b ∧ c ∉ a ∧ scanTo c ptr = some (a, b) := by
  by_cases h : c ∈ ptr
  · obtain ⟨a, b, rfl, ha⟩ := eq_append_cons_of_mem h
    exact Or.inr ⟨a, b, rfl, ha, scanTo_append b ha⟩
  · exact Or.inl ⟨h, scanTo_none h⟩

/-! ### Characters -/

/-- A statement about a byte can be checked on its 256 values. -/
theorem forall_byte {P : UInt8 → Prop} (h : ∀ n : Nat, n < 256 → P (UInt8.ofNat n)) :
    ∀ c, P c := by
  intro c
  have hc := h c.toNat c.toNat_lt
  rwa [UInt8.ofNat_toNat] at hc

set_option maxRecDepth 8192 in
/-- Case folding does not change the normalised character. -/
theorem http_header_char_tolower : ∀ c : UInt8,
    http_header_char (tolower c) = http_header_char c :=
  forall_byte (by decide)

set_option maxRecDepth 8192 in
theorem normalize_fold (key : Bytes) :
    http_header_normalize_name (fold key) = http_header_normalize_name key := by
  simp [http_header_normalize_name, fold, http_header_char_tolower]

/-- Names that are equal up to case have the same normalised name. -/
theorem normalize_eq_of_fold (h : fold a = fold b) :
    http_header_normalize_name a = http_header_normalize_name b := by
  rw [← normalize_fold a, h, normalize_fold b]

theorem zero_mem_normalize (h : 0 ∈ key) :
    0 ∈ http_header_normalize_name key := by
  have : http_header_char 0 ∈ key.map http_header_char := mem_map_of_mem h
  exact this

/-! ### Names the table does not tell apart -/

theorem sameName_iff : sameName a b = true ↔
    a.length = b.length ∧ strncasecmp a b = 0 := by
  unfold sameName upsgi_strnicmp
  by_cases h : a.length = b.length <;> simp [h]

theorem sameName_refl (a : Bytes) : sameName a a = true :=
  sameName_iff.mpr ⟨rfl, strncasecmp_eq_zero_of_fold a a rfl⟩

theorem strncasecmp_symm : ∀ (a b : Bytes), a.length = b.length →
    strncasecmp a b = 0 → strncasecmp b a = 0
  | [], [], _, _ => rfl
  | x :: a, y :: b, hl, h => by
      unfold strncasecmp at h ⊢
      by_cases hxy : tolower x = tolower y
      · rw [if_pos hxy] at h
        rw [if_pos hxy.symm]
        by_cases hy : y = 0
        · rw [if_pos hy]
        · have hx : x ≠ 0 := by
            intro hx
            have : tolower y = 0 := by rw [← hxy, hx]; rfl
            exact hy ((tolower_eq_zero_iff y).mp this)
          rw [if_neg hx] at h
          rw [if_neg hy]
          exact strncasecmp_symm a b (by simpa using hl) h
      · rw [if_neg hxy] at h
        have hne : (tolower x).toNat ≠ (tolower y).toNat := fun he =>
          hxy (UInt8.toNat_inj.mp he)
        omega

theorem strncasecmp_trans : ∀ (a b c : Bytes), a.length = b.length → b.length = c.length →
    strncasecmp a b = 0 → strncasecmp b c = 0 → strncasecmp a c = 0
  | [], [], [], _, _, _, _ => rfl
  | x :: a, y :: b, z :: c, hab, hbc, h1, h2 => by
      unfold strncasecmp at h1 h2 ⊢
      by_cases hxy : tolower x = tolower y
      · by_cases hyz : tolower y = tolower z
        · rw [if_pos hxy] at h1
          rw [if_pos hyz] at h2
          rw [if_pos (hxy.trans hyz)]
          by_cases hx : x = 0
          · rw [if_pos hx]
          · have hy : y ≠ 0 := by
              intro hy
              have : tolower x = 0 := by rw [hxy, hy]; rfl
              exact hx ((tolower_eq_zero_iff x).mp this)
            rw [if_neg hx] at h1 ⊢
            rw [if_neg hy] at h2
            exact strncasecmp_trans a b c (by simpa using hab) (by simpa using hbc) h1 h2
        · rw [if_neg hyz] at h2
          have hne : (tolower y).toNat ≠ (tolower z).toNat := fun he =>
            hyz (UInt8.toNat_inj.mp he)
          omega
      · rw [if_neg hxy] at h1
        have hne : (tolower x).toNat ≠ (tolower y).toNat := fun he =>
          hxy (UInt8.toNat_inj.mp he)
        omega

theorem sameName_symm (h : sameName a b = true) : sameName b a = true := by
  rw [sameName_iff] at h ⊢
  exact ⟨h.1.symm, strncasecmp_symm a b h.1 h.2⟩

theorem sameName_trans {c : Bytes} (h1 : sameName a b = true) (h2 : sameName b c = true) :
    sameName a c = true := by
  rw [sameName_iff] at h1 h2 ⊢
  exact ⟨h1.1.trans h2.1, strncasecmp_trans a b c h1.1 h2.1 h1.2 h2.2⟩

/-- For a name without NUL bytes the table compares up to letter case. -/
theorem fold_eq_of_sameName (h : sameName a b = true) (hb : 0 ∉ b) :
    fold a = fold b := by
  rw [sameName_iff] at h
  exact fold_eq_of_strncasecmp a b h.1 hb h.2

/-! ### Cut header lines -/

/-- The prefix flag is a function of the name. -/
def prefixFlag (key : Bytes) : Bool :=
  decide (upsgi_strnicmp key (lit "Content-Length") ≠ 0 ∧
    upsgi_strnicmp key (lit "Content-Type") ≠ 0)

/-- What holds of every line that `http_header_to_cgi` accepts. -/
structure HeaderLine.Wf (f : HeaderLine) : Prop where
  key_ne_nil : f.key ≠ []
  value_ne_nil : f.value ≠ []
  has_prefix_eq : f.has_prefix = prefixFlag f.key

theorem http_header_to_cgi_wf {hh : Bytes} (h : http_header_to_cgi hh = some f) :
    f.Wf := by
  unfold http_header_to_cgi at h
  simp only [] at h
  split at h
  · cases h
  · next hne =>
    simp only [not_or] at hne
    cases h
    exact ⟨hne.1, hne.2, rfl⟩

theorem prefixFlag_eq_of_fold (h : fold a = fold b) :
    prefixFlag a = prefixFlag b := by
  unfold prefixFlag
  have h1 : upsgi_strnicmp a (lit "Content-Length") = 0 ↔
      upsgi_strnicmp b (lit "Content-Length") = 0 := by
    rw [upsgi_strnicmp_eq_zero_iff _ _ (by decide), upsgi_strnicmp_eq_zero_iff _ _ (by decide), h]
  have h2 : upsgi_strnicmp a (lit "Content-Type") = 0 ↔
      upsgi_strnicmp b (lit "Content-Type") = 0 := by
    rw [upsgi_strnicmp_eq_zero_iff _ _ (by decide), upsgi_strnicmp_eq_zero_iff _ _ (by decide), h]
  simp [h1, h2]

/-- Names equal up to letter case give the same CGI variable. -/
theorem cgiName_eq_of_fold {g : HeaderLine} (hf : f.Wf) (hg : g.Wf) (h : fold f.key = fold g.key) :
    cgiName f = cgiName g := by
  unfold cgiName
  rw [hf.has_prefix_eq, hg.has_prefix_eq, prefixFlag_eq_of_fold h, normalize_eq_of_fold h]

/-- A name whose repetition is merged has no NUL byte. -/
theorem zero_not_mem_of_mergeable (h : http_header_reject_duplicate key = false) :
    0 ∉ key := by
  intro h0
  unfold http_header_reject_duplicate at h
  have hm : http_header_allow_duplicate_merge key = true := by
    cases hm : http_header_allow_duplicate_merge key with
    | true => rfl
    | false => simp [hm] at h
  obtain ⟨name, hmem, heq⟩ := any_eq_true.mp hm
  have hz := zero_mem_normalize h0
  rw [of_decide_eq_true heq] at hz
  have hall : ∀ name ∈ mergeableNames, (0 : UInt8) ∉ name := by decide
  exact hall name hmem hz

theorem reject_duplicate_eq_of_fold (h : fold a = fold b) :
    http_header_reject_duplicate a = http_header_reject_duplicate b := by
  unfold http_header_reject_duplicate http_header_allow_duplicate_merge http_header_name_eq
  rw [normalize_eq_of_fold h]

/-! ### The invariant of the table -/

/-- Values joined with a comma and a space. -/
def joinValues : List Bytes → Bytes
  | [] => []
  | [v] => v
  | v :: vs => upsgi_concat3n v (lit ", ") (joinValues vs)

theorem joinValues_snoc : ∀ (vs : List Bytes) (v : Bytes), vs ≠ [] →
    joinValues (vs ++ [v]) = upsgi_concat3n (joinValues vs) (lit ", ") v
  | [], _, h => absurd rfl h
  | [_], _, _ => by simp [joinValues]
  | a :: b :: vs, v, _ => by
      have ih := joinValues_snoc (b :: vs) v (by simp)
      simp only [cons_append, joinValues] at ih ⊢
      rw [ih]
      simp [upsgi_concat3n]

/-- The values of the fields of one name, in order. -/
def valuesOf (fs : List HeaderLine) (key : Bytes) : List Bytes :=
  (fs.filter fun f => sameName key f.key).map HeaderLine.value

/-- Enter a name unless one that differs from it by letter case at most is
    there. -/
def addName (names : List Bytes) (f : HeaderLine) : List Bytes :=
  if names.any fun name => sameName name f.key then names else names ++ [f.key]

/-- The names of the fields up to letter case, in the spelling and the order of
    their first appearance. -/
def fieldNames (fs : List HeaderLine) : List Bytes :=
  fs.foldl addName []

/-- The table the fields `fs` should give: one slot for each name, with the
    joined values of that name. -/
def headerTable (fs : List HeaderLine) : List HeaderSlot :=
  (fieldNames fs).map fun name => ⟨name, joinValues (valuesOf fs name), prefixFlag name⟩

/-- The table `t` represents the fields `fs`. -/
structure TableInv (fs : List HeaderLine) (t : List HeaderSlot) : Prop where
  wf : ∀ s ∈ t, HeaderLine.Wf s
  names : t.map HeaderLine.key = fieldNames fs
  distinct : t.Pairwise fun a b => sameName a.key b.key = false
  covered : ∀ f ∈ fs, ∃ s ∈ t, sameName s.key f.key = true ∧ cgiName s = cgiName f
  origin : ∀ s ∈ t, ∃ f ∈ fs, f.key = s.key
  merged : ∀ s ∈ t, s.value = joinValues (valuesOf fs s.key)
  single : ∀ f, http_header_reject_duplicate f.key = true → (f ∈ t ↔ f ∈ fs)

theorem tableInv_nil : TableInv [] [] :=
  ⟨by simp, rfl, List.Pairwise.nil, by simp, by simp, by simp, by simp⟩

/-- The invariant determines the table. -/
theorem TableInv.eq_headerTable (hinv : TableInv fs t) : t = headerTable fs := by
  unfold headerTable
  rw [← hinv.names, map_map]
  have hslot : ∀ s ∈ t, s = (⟨s.key, joinValues (valuesOf fs s.key), prefixFlag s.key⟩ : HeaderSlot) := by
    intro s hs
    rw [← hinv.merged s hs, ← (hinv.wf s hs).has_prefix_eq]
  calc t = t.map id := (map_id t).symm
    _ = _ := map_congr_left hslot

theorem valuesOf_snoc_same
    (h : sameName key f.key = true) : valuesOf (fs ++ [f]) key = valuesOf fs key ++ [f.value] := by
  simp [valuesOf, filter_append, h]

theorem valuesOf_snoc_other
    (h : sameName key f.key = false) : valuesOf (fs ++ [f]) key = valuesOf fs key := by
  simp [valuesOf, filter_append, h]

/-- What entering a field does: a new slot when no slot has its name, else a
    merge into the one slot that has it. -/
theorem tableAdd_cases (f : HeaderLine) : ∀ {t t' : List HeaderSlot}, tableAdd f t = some t' →
    ((∀ s ∈ t, sameName s.key f.key = false) ∧ t' = t ++ [f]) ∨
    (∃ l s r, t = l ++ s :: r ∧ sameName s.key f.key = true ∧
      http_header_reject_duplicate f.key = false ∧ t' = l ++ mergeSlot s f :: r)
  | [], t', h => by
      simp only [tableAdd, Option.some.injEq] at h
      exact Or.inl ⟨by simp, by simp [← h]⟩
  | slot :: slots, t', h => by
      unfold tableAdd at h
      by_cases hs : sameName slot.key f.key = true
      · rw [if_pos hs] at h
        by_cases hr : http_header_reject_duplicate f.key = true
        · simp [hr] at h
        · have hr' : http_header_reject_duplicate f.key = false := by simpa using hr
          simp only [hr', Bool.false_eq_true, if_false, Option.some.injEq] at h
          exact Or.inr ⟨[], slot, slots, rfl, hs, hr', by simp [← h]⟩
      · have hs' : sameName slot.key f.key = false := by simpa using hs
        rw [if_neg hs] at h
        obtain ⟨t1, ht1, rfl⟩ := Option.map_eq_some_iff.mp h
        rcases tableAdd_cases f ht1 with ⟨hall, rfl⟩ | ⟨l, s, r, rfl, hsn, hrej, rfl⟩
        · refine Or.inl ⟨?_, by simp⟩
          intro s hs
          rcases mem_cons.mp hs with rfl | hs
          · exact hs'
          · exact hall s hs
        · exact Or.inr ⟨slot :: l, s, r, by simp, hsn, hrej, by simp⟩

/-- A new name: the field gets a slot of its own. -/
theorem TableInv.add_new (hinv : TableInv fs t) (hf : f.Wf)
    (hnew : ∀ s ∈ t, sameName s.key f.key = false) :
    TableInv (fs ++ [f]) (t ++ [f]) := by
  have hnone : valuesOf fs f.key = [] := by
    unfold valuesOf
    rw [map_eq_nil_iff, filter_eq_nil_iff]
    intro g hg hsame
    obtain ⟨s, hs, hsn, _⟩ := hinv.covered g hg
    have := sameName_trans hsn (sameName_symm hsame)
    rw [hnew s hs] at this
    nomatch this
  refine ⟨?_, ?_, ?_, ?_, ?_, ?_, ?_⟩
  · intro s hs
    rcases mem_append.mp hs with hs | hs
    · exact hinv.wf s hs
    · simp only [mem_singleton] at hs
      rw [hs]
      exact hf
  · have hno : ((fieldNames fs).any fun name => sameName name f.key) = false := by
      rw [← hinv.names, any_eq_false]
      simpa using hnew
    rw [fieldNames, foldl_append]
    show _ = addName (fieldNames fs) f
    rw [addName, hno, ← hinv.names]
    simp
  · rw [pairwise_append]
    refine ⟨hinv.distinct, pairwise_singleton _ _, ?_⟩
    intro a ha b hb
    simp only [mem_singleton] at hb
    rw [hb]
    exact hnew a ha
  · intro g hg
    rcases mem_append.mp hg with hg | hg
    · obtain ⟨s, hs, hsn⟩ := hinv.covered g hg
      exact ⟨s, by simp [hs], hsn⟩
    · simp only [mem_singleton] at hg
      rw [hg]
      exact ⟨f, by simp, sameName_refl _, rfl⟩
  · intro s hs
    rcases mem_append.mp hs with hs | hs
    · obtain ⟨g, hg, hk⟩ := hinv.origin s hs
      exact ⟨g, by simp [hg], hk⟩
    · simp only [mem_singleton] at hs
      exact ⟨f, by simp, by rw [hs]⟩
  · intro s hs
    rcases mem_append.mp hs with hs | hs
    · rw [valuesOf_snoc_other (hnew s hs)]
      exact hinv.merged s hs
    · simp only [mem_singleton] at hs
      rw [hs, valuesOf_snoc_same (sameName_refl _), hnone]
      rfl
  · intro g hg
    rw [mem_append, mem_append, hinv.single g hg]

/-- A known name: the value is joined to the one of its slot. -/
theorem TableInv.add_merge {l r : List HeaderSlot} {s : HeaderSlot}
    (hinv : TableInv fs (l ++ s :: r)) (hf : f.Wf) (hsn : sameName s.key f.key = true)
    (hrej : http_header_reject_duplicate f.key = false) :
    TableInv (fs ++ [f]) (l ++ mergeSlot s f :: r) := by
  have hswf : HeaderLine.Wf s := hinv.wf s (by simp)
  have hfold : fold s.key = fold f.key := fold_eq_of_sameName hsn (zero_not_mem_of_mergeable hrej)
  have hcgi : cgiName s = cgiName f := cgiName_eq_of_fold hswf hf hfold
  have hdist := hinv.distinct
  rw [pairwise_append, pairwise_cons] at hdist
  obtain ⟨hl, ⟨hsr, hr⟩, hlr⟩ := hdist
  -- no other slot has the name of the field
  have hother : ∀ x, x ∈ l ∨ x ∈ r → sameName x.key f.key = false := by
    intro x hx
    by_contra hc
    have hxs : sameName x.key s.key = true :=
      sameName_trans (by simpa using hc) (sameName_symm hsn)
    rcases hx with hx | hx
    · have := hlr x hx s (by simp)
      rw [hxs] at this
      nomatch this
    · have := hsr x hx
      rw [sameName_symm hxs] at this
      nomatch this
  have hmem : ∀ {x : HeaderSlot}, x ∈ l ++ mergeSlot s f :: r →
      (x ∈ l ∨ x ∈ r) ∨ x = mergeSlot s f := by
    intro x hx
    simp only [mem_append, mem_cons] at hx
    tauto
  have hsrej : http_header_reject_duplicate s.key = false := by
    rw [reject_duplicate_eq_of_fold hfold, hrej]
  refine ⟨?_, ?_, ?_, ?_, ?_, ?_, ?_⟩
  · intro x hx
    rcases hmem hx with hx | rfl
    · exact hinv.wf x (by simp only [mem_append, mem_cons]; tauto)
    · refine ⟨hswf.key_ne_nil, ?_, hswf.has_prefix_eq⟩
      simp [mergeSlot, upsgi_concat3n, hswf.value_ne_nil]
  · have hyes : ((fieldNames fs).any fun name => sameName name f.key) = true := by
      rw [← hinv.names, any_eq_true]
      exact ⟨s.key, by simp, hsn⟩
    rw [fieldNames, foldl_append]
    show _ = addName (fieldNames fs) f
    rw [addName, hyes, ← hinv.names]
    simp [mergeSlot]
  · rw [pairwise_append, pairwise_cons]
    refine ⟨hl, ⟨fun x hx => hsr x hx, hr⟩, ?_⟩
    intro x hx y hy
    rcases mem_cons.mp hy with rfl | hy
    · exact hlr x hx s (by simp)
    · exact hlr x hx y (by simp [hy])
  · intro g hg
    rcases mem_append.mp hg with hg | hg
    · obtain ⟨x, hx, hxg⟩ := hinv.covered g hg
      simp only [mem_append, mem_cons] at hx
      rcases hx with hx | rfl | hx
      · exact ⟨x, by simp [hx], hxg⟩
      · exact ⟨mergeSlot x f, by simp, hxg⟩
      · exact ⟨x, by simp [hx], hxg⟩
    · simp only [mem_singleton] at hg
      rw [hg]
      exact ⟨mergeSlot s f, by simp, hsn, hcgi⟩
  · intro x hx
    rcases hmem hx with hx | rfl
    · obtain ⟨g, hg, hk⟩ := hinv.origin x (by simp only [mem_append, mem_cons]; tauto)
      exact ⟨g, by simp [hg], hk⟩
    · obtain ⟨g, hg, hk⟩ := hinv.origin s (by simp)
      exact ⟨g, by simp [hg], hk⟩
  · intro x hx
    rcases hmem hx with hx | rfl
    · rw [valuesOf_snoc_other (hother x hx)]
      exact hinv.merged x (by simp only [mem_append, mem_cons]; tauto)
    · have hne : valuesOf fs s.key ≠ [] := by
        obtain ⟨g, hg, hk⟩ := hinv.origin s (by simp)
        intro hnil
        unfold valuesOf at hnil
        rw [map_eq_nil_iff, filter_eq_nil_iff] at hnil
        exact hnil g hg (by rw [hk]; exact sameName_refl _)
      show upsgi_concat3n s.value _ f.value = _
      rw [hinv.merged s (by simp)]
      show _ = joinValues (valuesOf (fs ++ [f]) s.key)
      rw [valuesOf_snoc_same hsn, joinValues_snoc _ _ hne]
  · -- a name that is refused when repeated is neither the slot's nor the field's
    intro g hg
    have hgs : g ≠ s := by
      rintro rfl
      rw [hsrej] at hg
      cases hg
    have hgm : g ≠ mergeSlot s f := by
      rintro rfl
      rw [show (mergeSlot s f).key = s.key from rfl, hsrej] at hg
      cases hg
    have hgf : g ≠ f := by
      rintro rfl
      rw [hrej] at hg
      cases hg
    have := hinv.single g hg
    simp only [mem_append, mem_cons, not_mem_nil, hgs, hgm, hgf, false_or, or_false] at this ⊢
    exact this

theorem TableInv.tableAdd (hinv : TableInv fs t) (hf : f.Wf) (h : tableAdd f t = some t') :
    TableInv (fs ++ [f]) t' := by
  rcases tableAdd_cases f h with ⟨hnew, rfl⟩ | ⟨l, s, r, rfl, hsn, hrej, rfl⟩
  · exact hinv.add_new hf hnew
  · exact hinv.add_merge hf hsn hrej

/-! ### The header lines of a block -/

/-- The fields of the header lines, in order, up to the empty line. -/
def headerFields : Nat → Bytes → List HeaderLine
  | 0, _ => []
  | fuel + 1, ptr =>
      match scanTo CR ptr with
      | some (line, _ :: rest) =>
          match http_header_to_cgi line with
          | some field => field :: headerFields fuel rest
          | none => []
      | _ => []

theorem headerLoop_inv : ∀ (fuel : Nat) (fs : List HeaderLine) (t t' : List HeaderSlot)
    (ptr : Bytes), TableInv fs t → headerLoop fuel t ptr = .ok t' →
    TableInv (fs ++ headerFields fuel ptr) t'
  | 0, fs, t, t', ptr, hinv, h => by
      simp only [headerLoop, Except.ok.injEq] at h
      subst h
      simpa [headerFields] using hinv
  | fuel + 1, fs, t, t', ptr, hinv, h => by
      unfold headerLoop at h
      unfold headerFields
      split at h
      · next hscan =>
        simp only [Except.ok.injEq] at h
        subst h
        simpa [hscan] using hinv
      · cases h
      · next line c rest hscan =>
        split at h
        · cases h
        · split at h
          · cases h
          · split at h
            · next hnil =>
              simp only [Except.ok.injEq] at h
              subst h
              have : http_header_to_cgi line = none := by rw [hnil]; rfl
              simpa [hscan, this] using hinv
            · split at h
              · cases h
              · split at h
                · cases h
                · next field hfield =>
                  split at h
                  · cases h
                  · next t1 hadd =>
                    have hinv1 := hinv.tableAdd (http_header_to_cgi_wf hfield) hadd
                    have ih := headerLoop_inv fuel _ _ _ rest hinv1 h
                    simpa [hscan, hfield] using ih

/-- A header line that is entered. -/
theorem headerLoop_line {fuel : Nat} {line rest : Bytes} (hcr : CR ∉ line)
    (hlen : line.length ≤ 0xffff) (hfold : rest.head? ≠ some SP ∧ rest.head? ≠ some TAB)
    (hf : http_header_to_cgi line = some f) (hadd : tableAdd f t = some t') :
    headerLoop (fuel + 1) t (line ++ CR :: LF :: rest) = headerLoop fuel t' rest := by
  have hne : line ≠ [] := by
    rintro rfl
    cases hf
  have hnl : ¬0xffff < line.length := by omega
  conv => lhs; unfold headerLoop
  simp [scanTo_append _ hcr, hfold.1, hfold.2, hne, hf, hadd, hnl]

/-- An accepted header part leaves the table of its fields. -/
theorem headerLoop_tableInv {fuel : Nat} {ptr : Bytes}
    (h : headerLoop fuel [] ptr = .ok t) : TableInv (headerFields fuel ptr) t :=
  headerLoop_inv fuel [] [] t ptr tableInv_nil h

end Upsgi
