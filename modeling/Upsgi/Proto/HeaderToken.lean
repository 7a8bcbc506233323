import Upsgi.Proto.HttpHeader

/-! # Tokens of a header value

    What `http_header_value_has_token` looks for: an element of a comma-separated list which, without
    its parameters and the blanks around it, is the token.
-/

namespace Upsgi

open Framing List

/-- An element up to its first semicolon, without the blanks around it. -/
def bareElement (element : Bytes) : Bytes :=
  ((element.takeWhile (· ≠ SEMICOLON)).dropWhile isBlank).rdropWhile isBlank

/-- Some element is the token, up to case. -/
def ListsToken (token value : Bytes) : Prop :=
  ∃ element ∈ value.splitOn COMMA, fold (bareElement element) = fold token

theorem dropWhile_drop_takeWhile {p q : UInt8 → Bool} (h : ∀ c, p c = true → q c = true) (l : Bytes) :
    (l.drop (l.takeWhile p).length).dropWhile q = l.dropWhile q := by
  induction l with
  | nil => rfl
  | cons c l ih =>
    by_cases hc : p c
    · simp [hc, h c hc, ih]
    · simp [hc]

section scan
variable {token : Bytes} (htoken : token ≠ [])
include htoken

theorem fold_nil_ne : fold (bareElement []) ≠ fold token := by
  intro h
  exact htoken (length_eq_zero_iff.mp (by simpa [bareElement] using (congrArg length h).symm))

theorem not_listsToken_nil : ¬ListsToken token [] := by
  simp [ListsToken, fold_nil_ne htoken]

theorem listsToken_comma (rest : Bytes) :
    ListsToken token (COMMA :: rest) ↔ ListsToken token rest := by
  simp [ListsToken, splitOn_cons_eq_if_modifyHead, fold_nil_ne htoken]

/-- The scan may leave out blanks and commas at the beginning. -/
theorem listsToken_dropWhile (value : Bytes) :
    ListsToken token (value.dropWhile (fun c => isBlank c || c = COMMA)) ↔
      ListsToken token value := by
  induction value with
  | nil => rfl
  | cons c value ih =>
    by_cases hcomma : c = COMMA
    · rw [dropWhile_cons_of_pos (by simp [hcomma]), ih, hcomma, listsToken_comma htoken]
    by_cases hblank : isBlank c
    · rw [dropWhile_cons_of_pos (by simp [hblank]), ih]
      -- the blank belongs to the first element
      have hsemi : c ≠ SEMICOLON := by
        rintro rfl
        nomatch hblank
      obtain ⟨first, others, hsplit⟩ := exists_cons_of_ne_nil (splitOn_ne_nil COMMA value)
      simp [ListsToken, splitOn_cons_eq_if_modifyHead, hcomma, hsplit, bareElement, hsemi, hblank]
    · rw [dropWhile_cons_of_neg (by simp [hcomma, hblank])]

/-- The first element, and the list from the comma behind it on. -/
theorem listsToken_first (value : Bytes) :
    ListsToken token value ↔ fold (bareElement (value.takeWhile (· ≠ COMMA))) = fold token ∨
      ListsToken token (value.dropWhile (· ≠ COMMA)) := by
  have hbefore : COMMA ∉ value.takeWhile (· ≠ COMMA) := fun h => by
    simpa using mem_takeWhile_imp h
  conv_lhs => rw [← takeWhile_append_dropWhile (p := (· ≠ COMMA)) (l := value)]
  have hcomma := head?_dropWhile_not (· ≠ COMMA) value
  generalize value.takeWhile (· ≠ COMMA) = first at hbefore ⊢
  cases hrest : value.dropWhile (· ≠ COMMA) with
  | nil => simp [ListsToken, splitOn_eq_singleton hbefore, fold_nil_ne htoken]
  | cons c rest =>
    rw [hrest] at hcomma
    obtain rfl : c = COMMA := by simpa using hcomma
    rw [listsToken_comma htoken]
    simp [ListsToken, splitOn_append_cons_self_of_not_mem hbefore]

omit htoken in
theorem same_token_iff (hnul : 0 ∉ token) (bare : Bytes) :
    bare.length = token.length ∧ upsgi_strnicmp bare token = 0 ↔ fold bare = fold token := by
  rw [upsgi_strnicmp_eq_zero_iff bare token hnul]
  exact and_iff_right_of_imp fun h => by simpa using congrArg length h

/-- Every round decides on one element. -/
theorem has_token_loop_iff (hnul : 0 ∉ token) (fuel : Nat) (value : Bytes)
    (hfuel : value.length ≤ fuel) :
    http_header_value_has_token_loop token fuel value = true ↔ ListsToken token value := by
  induction fuel generalizing value with
  | zero =>
    obtain rfl := length_eq_zero_iff.mp (Nat.le_zero.mp hfuel)
    simp [http_header_value_has_token_loop, not_listsToken_nil htoken]
  | succ fuel ih =>
    rw [← listsToken_dropWhile htoken]
    have hlen := (dropWhile_suffix (fun c => isBlank c || c = COMMA) (l := value)).length_le
    have hnot := head?_dropWhile_not (fun c => isBlank c || c = COMMA) value
    unfold http_header_value_has_token_loop
    cases hskip : value.dropWhile (fun c => isBlank c || c = COMMA) with
    | nil => simp [not_listsToken_nil htoken]
    | cons c rest =>
      rw [hskip] at hlen hnot
      obtain ⟨hblank, hcomma⟩ : isBlank c = false ∧ c ≠ COMMA := by simpa using hnot
      have hbare : bareElement ((c :: rest).takeWhile (· ≠ COMMA)) =
          ((c :: rest).takeWhile (fun c => c ≠ COMMA && c ≠ SEMICOLON)).rdropWhile isBlank := by
        unfold bareElement
        rw [takeWhile_takeWhile]
        by_cases hsemi : c = SEMICOLON <;> simp [hsemi, hcomma, hblank, and_comm]
      have hahead : (((c :: rest).drop ((c :: rest).takeWhile
          (fun c => c ≠ COMMA && c ≠ SEMICOLON)).length).dropWhile (· ≠ COMMA)) =
            (c :: rest).dropWhile (· ≠ COMMA) := dropWhile_drop_takeWhile (by simp +contextual) _
      have hshorter : ((c :: rest).dropWhile (· ≠ COMMA)).length ≤ fuel := by
        rw [dropWhile_cons_of_pos (by simpa using hcomma)]
        have := (dropWhile_suffix (· ≠ COMMA) (l := rest)).length_le
        rw [length_cons] at hlen
        omega
      rw [listsToken_first htoken, hbare, ← ih _ hshorter, ← hahead]
      simp only [same_token_iff hnul]
      split_ifs with hsame
      · exact iff_of_true rfl (.inl hsame)
      · exact (or_iff_right hsame).symm

end scan

/-- The scan finds a token without NUL bytes if and only if the list has it. -/
theorem header_value_has_token_iff (value token : Bytes) (htoken : token ≠ []) (hnul : 0 ∉ token) :
    http_header_value_has_token value token = true ↔
      ∃ element ∈ value.splitOn COMMA, fold (bareElement element) = fold token :=
  has_token_loop_iff htoken hnul value.length value (Nat.le_refl _)

theorem header_value_has_token_iff_gzip :
    http_header_value_has_token (lit "br, GZip ;q=1") (lit "gzip") = true :=
  (header_value_has_token_iff _ _ (by decide) (by decide)).mpr
    ⟨lit " GZip ;q=1", by decide, by decide⟩

/-- A NUL byte ends the comparison: `a`, NUL, `b` is taken for `a`, NUL, `c`. -/
theorem header_value_has_token_nul :
    http_header_value_has_token [97, 0, 98] [97, 0, 99] = true ∧
      ¬∃ element ∈ [97, 0, 98].splitOn COMMA, fold (bareElement element) = fold [97, 0, 99] := by
  decide

end Upsgi
