import Upsgi.Proto.HttpFields

/-! # The header variables of an accepted block

    What the header variables of a request should be can be said without the
    header table: cut the lines at their first colons, take the names in the
    order of their first appearance, and join the values of each name.  An
    accepted block gives exactly that.  The table compares names with
    `strncasecmp`, which stops at a NUL byte; but a name with a NUL byte is
    refused when it seems to be there already.
-/

namespace Upsgi

open Framing List

/-! ### What the variables should be -/

/-- The name of a field is the text before the first colon, its value the text
    behind it without leading spaces. -/
def fieldOf (line : Bytes) : Pair :=
  (line.takeWhile (· ≠ COLON), ((line.dropWhile (· ≠ COLON)).drop 1).dropWhile (· = SP))

/-- `toupper` in the C locale. -/
def toupper (c : UInt8) : UInt8 :=
  if 97 ≤ c ∧ c ≤ 122 then c - 32 else c

/-- The variable of a field name. -/
def headerVarName (name : Bytes) : Bytes :=
  let upper := name.map fun c => if c = DASH then UNDERSCORE else toupper c
  if fold name = fold (lit "Content-Length") ∨ fold name = fold (lit "Content-Type") then upper
  else lit "HTTP_" ++ upper

/-- One variable for each field name, names compared ignoring case. -/
def headerVars (fields : List Pair) : List Pair :=
  (fields.map fun f => fold f.1).eraseDups.map fun name =>
    (headerVarName name,
      (lit ", ").intercalate ((fields.filter fun f => fold f.1 = name).map Prod.snd))

/-- The lines of a header part, without their line ends: up to an empty line or to
    the last line end. -/
structure HeaderLines (part : Bytes) (lines : List Bytes) : Prop where
  split : ∃ rest, part = lines.flatMap (· ++ [CR, LF]) ++ rest ∧ ([CR, LF] <+: rest ∨ CR ∉ rest)
  line : ∀ line ∈ lines, line ≠ [] ∧ CR ∉ line

/-- The part of a block behind the request line. -/
def headerPart (cfg : HttpConfig) (block : Bytes) : Bytes :=
  match requestVars cfg block with
  | .ok (_, ptr, _) => ptr
  | .error _ => []

/-! ### Lines -/

theorem HeaderLines.cons {part line : Bytes} {lines : List Bytes} (h : HeaderLines part lines)
    (hne : line ≠ []) (hcr : CR ∉ line) : HeaderLines (line ++ CR :: LF :: part) (line :: lines) := by
  obtain ⟨rest, rfl, hrest⟩ := h.split
  refine ⟨⟨rest, by simp, hrest⟩, ?_⟩
  rw [forall_mem_cons]
  exact ⟨⟨hne, hcr⟩, h.line⟩

/-- A line that is cut has the field that is expected of it. -/
theorem http_header_to_cgi_field {line : Bytes} {f : HeaderLine}
    (h : http_header_to_cgi line = some f) : (f.key, f.value) = fieldOf line := by
  unfold http_header_to_cgi at h
  dsimp only at h
  split at h
  · cases h
  · cases h
    have hdrop : line.drop (line.takeWhile (· ≠ COLON)).length = line.dropWhile (· ≠ COLON) := by
      nth_rewrite 2 [← takeWhile_append_dropWhile (p := (· ≠ COLON)) (l := line)]
      exact drop_left
    unfold fieldOf
    rw [← hdrop]

/-- Loop: the fields of the lines that were read. -/
theorem headerLoop_lines (fuel : Nat) : ∀ (t t' : List HeaderSlot) (ptr : Bytes),
    ptr.length ≤ fuel → headerLoop fuel t ptr = .ok t' →
    ∃ lines, HeaderLines ptr lines ∧
      (headerFields fuel ptr).map (fun f => (f.key, f.value)) = lines.map fieldOf := by
  induction fuel with
  | zero =>
    intro t t' ptr hfuel _
    obtain rfl : ptr = [] := length_eq_zero_iff.mp (Nat.le_zero.mp hfuel)
    exact ⟨[], ⟨⟨[], rfl, .inr not_mem_nil⟩, nofun⟩, rfl⟩
  | succ fuel ih =>
    intro t t' ptr hfuel hloop
    unfold headerLoop at hloop
    unfold headerFields
    rcases scanTo_cases CR ptr with ⟨hcr, hscan⟩ | ⟨line, rest, rfl, hcr, hscan⟩
    · rw [hscan]
      exact ⟨[], ⟨⟨ptr, rfl, .inr hcr⟩, nofun⟩, rfl⟩
    · rw [hscan] at hloop ⊢
      cases rest with
      | nil => cases hloop
      | cons c rest =>
        dsimp only at hloop ⊢
        split at hloop
        · cases hloop
        · next hlf =>
          obtain rfl : c = LF := not_not.mp hlf
          split at hloop
          · cases hloop
          · split at hloop
            · -- the empty line
              next hnil =>
              subst hnil
              refine ⟨[], ⟨⟨_, rfl, .inl ⟨rest, rfl⟩⟩, nofun⟩, ?_⟩
              rfl
            · next hne =>
              split at hloop
              · cases hloop
              · cases hfield : http_header_to_cgi line with
                | none =>
                  rw [hfield] at hloop
                  cases hloop
                | some f =>
                  rw [hfield] at hloop
                  dsimp only at hloop ⊢
                  split at hloop
                  · cases hloop
                  · next t₁ _ =>
                    have hshort : rest.length ≤ fuel := by
                      simp only [length_append, length_cons] at hfuel
                      omega
                    obtain ⟨lines, hlines, hfields⟩ := ih t₁ t' rest hshort hloop
                    refine ⟨line :: lines, hlines.cons hne hcr, ?_⟩
                    rw [map_cons, map_cons, hfields, http_header_to_cgi_field hfield]

/-! ### Names -/

set_option maxRecDepth 8192 in
theorem upper_tolower : ∀ c : UInt8,
    (if tolower c = DASH then UNDERSCORE else toupper (tolower c)) = http_header_char c :=
  forall_byte (by decide)

set_option maxRecDepth 8192 in
theorem tolower_tolower : ∀ c : UInt8, tolower (tolower c) = tolower c :=
  forall_byte (by decide)

theorem fold_fold (s : Bytes) : fold (fold s) = fold s := by
  simp [fold, tolower_tolower]

/-- The variable of a slot is the one of its name. -/
theorem cgiName_eq_headerVarName (name value : Bytes) :
    cgiName ⟨name, value, prefixFlag name⟩ = headerVarName (fold name) := by
  have hupper : (fold name).map (fun c => if c = DASH then UNDERSCORE else toupper c) =
      http_header_normalize_name name := by
    simp [fold, http_header_normalize_name, upper_tolower]
  have hlength := upsgi_strnicmp_eq_zero_iff name (lit "Content-Length") (by decide)
  have htype := upsgi_strnicmp_eq_zero_iff name (lit "Content-Type") (by decide)
  unfold cgiName headerVarName prefixFlag
  rw [hupper, fold_fold]
  by_cases hplain : fold name = fold (lit "Content-Length") ∨ fold name = fold (lit "Content-Type")
  · rw [if_pos hplain, if_neg]
    · rfl
    · rw [← hlength, ← htype] at hplain
      rw [decide_eq_true_eq]
      exact fun hprefixed => hplain.elim hprefixed.1 hprefixed.2
  · rw [if_neg hplain, if_pos]
    rw [not_or, ← hlength, ← htype] at hplain
    exact decide_eq_true hplain

theorem joinValues_eq : ∀ vs : List Bytes, joinValues vs = (lit ", ").intercalate vs
  | [] => rfl
  | [v] => by simp [joinValues]
  | v :: w :: vs => by
      have ih := joinValues_eq (w :: vs)
      show upsgi_concat3n v (lit ", ") (joinValues (w :: vs)) = _
      rw [ih]
      simp [upsgi_concat3n]

variable {fs : List HeaderLine}

/-- Among the fields of an accepted block the table tells names apart exactly if
    they differ by more than letter case. -/
theorem TableInv.sameName_iff_fold {t : List HeaderSlot} (hinv : TableInv fs t) {f g : HeaderLine}
    (hf : f ∈ fs) (hg : g ∈ fs) :
    sameName f.key g.key = true ↔ fold f.key = fold g.key := by
  constructor
  · intro hsame
    cases hrf : http_header_reject_duplicate f.key with
    | false => exact (fold_eq_of_sameName (sameName_symm hsame) (zero_not_mem_of_mergeable hrf)).symm
    | true =>
      cases hrg : http_header_reject_duplicate g.key with
      | false => exact fold_eq_of_sameName hsame (zero_not_mem_of_mergeable hrg)
      | true =>
        -- both have a slot of their own, so it is the same one
        have hft := (hinv.single f hrf).mpr hf
        have hgt := (hinv.single g hrg).mpr hg
        have hsymm : Std.Symm fun a b : HeaderSlot => sameName a.key b.key = false := by
          refine ⟨fun a b h => ?_⟩
          rw [← Bool.not_eq_true] at h ⊢
          exact fun hback => h (sameName_symm hback)
        by_contra hne
        have hdiff := hinv.distinct.forall hft hgt fun hfg => hne (by rw [hfg])
        rw [hsame] at hdiff
        cases hdiff
  · intro hfold
    have hlen : f.key.length = g.key.length := by
      rw [← fold_length f.key, hfold, fold_length]
    exact sameName_iff.mpr ⟨hlen, strncasecmp_eq_zero_of_fold _ _ hfold⟩

theorem mem_fieldNames {name : Bytes} (h : name ∈ fieldNames fs) :
    ∃ f ∈ fs, f.key = name := by
  induction fs using List.reverseRecOn with
  | nil => cases h
  | append_singleton fs f ih =>
    rw [fieldNames, foldl_append] at h
    change name ∈ addName (fieldNames fs) f at h
    unfold addName at h
    split at h
    · obtain ⟨g, hg, hkey⟩ := ih h
      exact ⟨g, mem_append_left _ hg, hkey⟩
    · rcases mem_append.mp h with h | h
      · obtain ⟨g, hg, hkey⟩ := ih h
        exact ⟨g, mem_append_left _ hg, hkey⟩
      · exact ⟨f, by simp, (mem_singleton.mp h).symm⟩

theorem eraseDups_snoc {α : Type} [BEq α] [LawfulBEq α] (l : List α) (x : α) :
    (l ++ [x]).eraseDups = if l.elem x then l.eraseDups else l.eraseDups ++ [x] := by
  rw [eraseDups_append]
  unfold List.removeAll
  rw [filter_singleton]
  cases l.elem x with
  | true => simp
  | false => simp [eraseDups_cons]

/-- The names of the slots, in the order of their first appearance. -/
theorem fieldNames_fold
    (hsame : ∀ f ∈ fs, ∀ g ∈ fs, sameName f.key g.key = true ↔ fold f.key = fold g.key) :
    (fieldNames fs).map fold = (fs.map fun f => fold f.key).eraseDups := by
  induction fs using List.reverseRecOn with
  | nil => rfl
  | append_singleton fs f ih =>
    have ih := ih fun a ha b hb =>
      hsame a (mem_append_left _ ha) b (mem_append_left _ hb)
    -- the name is there exactly if an earlier field has it
    have hany : ((fieldNames fs).any fun name => sameName name f.key) = true ↔
        fold f.key ∈ fs.map fun f => fold f.key := by
      rw [← mem_eraseDups, ← ih, any_eq_true, mem_map]
      refine exists_congr fun name => and_congr_right fun hname => ?_
      obtain ⟨g, hg, rfl⟩ := mem_fieldNames hname
      exact hsame g (mem_append_left _ hg) f (by simp)
    rw [fieldNames, foldl_append, map_append, map_singleton, eraseDups_snoc, ← ih]
    change (addName (fieldNames fs) f).map fold = _
    unfold addName
    by_cases hthere : fold f.key ∈ fs.map fun f => fold f.key
    · rw [if_pos (hany.mpr hthere), if_pos (elem_iff.mpr hthere)]
    · rw [if_neg (mt hany.mp hthere), if_neg (mt elem_iff.mp hthere), map_append, map_singleton]

/-- The slots of the table are the variables that are expected of its fields. -/
theorem TableInv.vars_eq {t : List HeaderSlot} (hinv : TableInv fs t) :
    t.map (fun slot => (cgiName slot, slot.value)) =
      headerVars (fs.map fun f => (f.key, f.value)) := by
  have hsame : ∀ f ∈ fs, ∀ g ∈ fs, sameName f.key g.key = true ↔ fold f.key = fold g.key :=
    fun f hf g hg => hinv.sameName_iff_fold hf hg
  rw [hinv.eq_headerTable]
  unfold headerTable headerVars
  rw [map_map, map_map]
  change _ = List.map _ (fs.map fun f => fold f.key).eraseDups
  rw [← fieldNames_fold hsame, map_map]
  refine map_congr_left fun name hname => ?_
  obtain ⟨g, hg, rfl⟩ := mem_fieldNames hname
  show (cgiName ⟨g.key, _, prefixFlag g.key⟩, joinValues (valuesOf fs g.key)) = (_, _)
  rw [cgiName_eq_headerVarName, joinValues_eq]
  congr 2
  unfold valuesOf
  rw [filter_map, map_map]
  congr 1
  refine filter_congr fun f hf => ?_
  show sameName g.key f.key = decide (fold f.key = fold g.key)
  rw [Bool.eq_iff_iff, decide_eq_true_eq, hsame g hg f hf]
  exact eq_comm

/-! ### The packet -/

/-- A slot that was appended has a frame below the buffer size. -/
theorem emitHeaders_frameSize (bs : Nat) : ∀ (slots : List HeaderSlot) (cl te : Bool)
    (req req' : HttpRequest), emitHeaders bs cl te slots req = .ok req' →
    ∀ slot ∈ slots, frameSize (cgiName slot, slot.value) < bs
  | [], _, _, _, _, _ => nofun
  | slot :: slots, cl, te, req, req', h => by
      unfold emitHeaders at h
      split at h
      · cases h
      · split at h
        · cases h
        · split at h
          · cases h
          · next req₁ hadd =>
            rw [http_add_upsgi_header_eq, Option.ite_none_left_eq_some] at hadd
            rw [List.forall_mem_cons]
            exact ⟨by omega, emitHeaders_frameSize bs slots _ _ req₁ req' h⟩

/-- What the header loop and the emission loop did with an accepted block. -/
theorem http_parse_loops {cfg : HttpConfig} {block : Bytes} {req : HttpRequest}
    (h : http_parse cfg block = .ok req) :
    ∃ t vars, headerLoop (headerPart cfg block).length [] (headerPart cfg block) = .ok t ∧
      receivedFields cfg block =
        headerFields (headerPart cfg block).length (headerPart cfg block) ∧
      emitHeaders cfg.buffer_size false false t vars = .ok req := by
  obtain ⟨vars, ptr, ib, hv⟩ := http_parse_requestVars h
  have hpart : headerPart cfg block = ptr := by
    unfold headerPart
    rw [hv]
  have hfields : receivedFields cfg block = headerFields ptr.length ptr := by
    unfold receivedFields
    rw [hv]
  rw [hpart, hfields]
  simp only [http_parse, hv, bind, Except.bind] at h
  split at h
  · cases h
  · next t ht => exact ⟨t, _, ht, rfl, h⟩

/-- The packet of an accepted block has the header variables that its lines ask
    for, as long as the lengths of a packet fit in sixteen bits. -/
theorem header_fields_faithful {cfg : HttpConfig} {block : Bytes} {req : HttpRequest}
    (hsize : cfg.buffer_size ≤ 65535) (h : http_parse cfg block = .ok req) :
    ∃ lines vars, HeaderLines (headerPart cfg block) lines ∧ packetVars req.buffer = some vars ∧
      vars.filter (fun e => decide (IsHeaderVar e.1)) = headerVars (lines.map fieldOf) := by
  obtain ⟨-, hwritten, hinv⟩ := http_parse_ok h
  obtain ⟨t, start, hloop, hfields, hemit⟩ := http_parse_loops h
  obtain ⟨lines, hlines, hmap⟩ := headerLoop_lines _ [] t _ le_rfl hloop
  have htable : t = headerTable (receivedFields cfg block) := by
    rw [(headerLoop_tableInv hloop).eq_headerTable, hfields]
  -- no frame is as large as the buffer
  have hfit : ∀ slot ∈ headerTable (receivedFields cfg block), Fits (cgiName slot, slot.value) := by
    intro slot hslot
    have hframe := emitHeaders_frameSize _ _ _ _ _ _ hemit slot (htable ▸ hslot)
    unfold frameSize at hframe
    show (cgiName slot).length < 65536 ∧ slot.value.length < 65536
    dsimp only at hframe
    omega
  refine ⟨lines, _, hlines, packetVars_of_slots_fit h hfit, ?_⟩
  rw [← hmap, ← hfields, ← hinv.vars_eq, hwritten, map_append, filter_append]
  -- the variables of the request line are not header variables
  have hvars : (((acceptedVars cfg block).map writtenVar).map Written.frame).filter
      (fun e => decide (IsHeaderVar e.1)) = [] := by
    rw [filter_eq_nil_iff]
    intro e he
    obtain ⟨w, hw, rfl⟩ := mem_map.mp he
    obtain ⟨v, hv, rfl⟩ := mem_map.mp hw
    rw [decide_eq_true_eq]
    exact requestVarNames_not_header _ (acceptedVars_names v hv)
  rw [hvars, nil_append, map_map]
  apply filter_eq_self.mpr
  intro e he
  obtain ⟨slot, hslot, rfl⟩ := mem_map.mp he
  exact decide_eq_true (cgiName_isHeaderVar (hinv.wf slot hslot))

/-- The default buffer. -/
def pageCfg : HttpConfig where
  buffer_size := 4096
  peer := .inet [127, 0, 0, 1]
  inet_ntop4 := fun _ => some (lit "127.0.0.1")
  inet_ntop6 := fun _ => none

/-- A field that comes twice, with another one in between. -/
def threeFields : Bytes :=
  lit "GET / HTTP/1.1\r\nAccept: a\r\nContent-Type: b:c\r\naccept:  d\r\n\r\n"

theorem header_fields_faithful_three :
    ∃ req lines vars, http_parse pageCfg threeFields = .ok req ∧
      HeaderLines (headerPart pageCfg threeFields) lines ∧ packetVars req.buffer = some vars ∧
      vars.filter (fun e => decide (IsHeaderVar e.1)) = headerVars (lines.map fieldOf) := by
  obtain ⟨req, hreq⟩ := exists_ok (by decide +kernel : (http_parse pageCfg threeFields).isOk = true)
  obtain ⟨lines, vars, hlines, hvars, hheader⟩ := header_fields_faithful (by decide) hreq
  exact ⟨req, lines, vars, hreq, hlines, hvars, hheader⟩

example : headerVars [fieldOf (lit "Accept: a"), fieldOf (lit "Content-Type: b:c"),
    fieldOf (lit "accept:  d")] =
      [(lit "HTTP_ACCEPT", lit "a, d"), (lit "CONTENT_TYPE", lit "b:c")] := by
  decide +kernel

end Upsgi
