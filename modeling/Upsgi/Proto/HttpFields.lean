import Upsgi.Proto.HttpPacket

/-! # Header fields and CGI variables

    Two field names give the same CGI variable when they differ by letter
    case and by the choice between `-` and `_`.  The header table only joins
    or refuses names that differ by letter case.  This module says what
    follows for the names in the packet.
-/

namespace Upsgi

open Framing List

/-! ### Names of header variables -/

/-- The names header fields are given. -/
def IsHeaderVar (name : Bytes) : Prop :=
  lit "HTTP_" <+: name ∨ name = lit "CONTENT_LENGTH" ∨ name = lit "CONTENT_TYPE"

instance (name : Bytes) : Decidable (IsHeaderVar name) :=
  inferInstanceAs (Decidable (_ ∨ _ ∨ _))

theorem requestVarNames_not_header : ∀ name ∈ requestVarNames, ¬IsHeaderVar name := by
  decide

/-- A field without the `HTTP_` prefix is one of the two content fields. -/
theorem cgiName_isHeaderVar {f : HeaderLine} (hf : f.Wf) : IsHeaderVar (cgiName f) := by
  unfold cgiName
  cases hp : f.has_prefix with
  | true => exact Or.inl (by simp)
  | false =>
    right
    rw [hf.has_prefix_eq, prefixFlag, decide_eq_false_iff_not, not_and_or, not_not, not_not,
      upsgi_strnicmp_eq_zero_iff _ _ (by decide), upsgi_strnicmp_eq_zero_iff _ _ (by decide)] at hp
    rcases hp with h | h
    · left
      rw [normalize_eq_of_fold h]
      decide
    · right
      rw [normalize_eq_of_fold h]
      decide

theorem headerFields_wf : ∀ (fuel : Nat) (ptr : Bytes), ∀ f ∈ headerFields fuel ptr, f.Wf
  | 0, _, f, h => by simp [headerFields] at h
  | fuel + 1, ptr, f, h => by
      unfold headerFields at h
      split at h
      · next rest _ =>
        split at h
        · next field hfield =>
          rcases List.mem_cons.mp h with rfl | h
          · exact http_header_to_cgi_wf hfield
          · exact headerFields_wf fuel rest f h
        · simp at h
      · simp at h

theorem receivedFields_wf {cfg : HttpConfig} {block : Bytes} :
    ∀ f ∈ receivedFields cfg block, f.Wf := by
  intro f hf
  unfold receivedFields at hf
  split at hf
  · exact headerFields_wf _ _ f hf
  · simp at hf

/-! ### Uniqueness -/

/-- No header variable occurs twice among the variables. -/
def UniqueHeaderVars (es : List Pair) : Prop :=
  ∀ name, IsHeaderVar name → (es.map Prod.fst).count name ≤ 1

/-- Fields that give the same CGI variable differ in their name by letter case
    at most. -/
def SpellingsAgree (fs : List HeaderLine) : Prop :=
  ∀ f ∈ fs, ∀ g ∈ fs, cgiName f = cgiName g → sameName f.key g.key = true

instance (fs : List HeaderLine) : Decidable (SpellingsAgree fs) :=
  inferInstanceAs (Decidable (∀ f ∈ fs, ∀ g ∈ fs, _ → _))

/-- The names in a table are pairwise different exactly when the spellings of
    its fields agree. -/
theorem nodup_cgiName_iff {fs : List HeaderLine} {t : List HeaderSlot} (hinv : TableInv fs t)
    (hfs : ∀ f ∈ fs, f.Wf) : (t.map cgiName).Nodup ↔ SpellingsAgree fs := by
  constructor
  · intro hnodup f hf g hg hname
    obtain ⟨s, hs, hsf, hsc⟩ := hinv.covered f hf
    obtain ⟨r, hr, hrg, hrc⟩ := hinv.covered g hg
    have hsr : s = r :=
      inj_on_of_nodup_map hnodup hs hr (by rw [hsc, hrc, hname])
    subst hsr
    exact sameName_trans (sameName_symm hsf) hrg
  · intro hagree
    rw [List.Nodup, pairwise_map]
    refine hinv.distinct.imp_of_mem ?_
    intro a b ha hb hab hname
    -- the two slots come from fields of the same names
    obtain ⟨f, hf, hfa⟩ := hinv.origin a ha
    obtain ⟨g, hg, hgb⟩ := hinv.origin b hb
    have hfa' : cgiName f = cgiName a := cgiName_eq_of_fold (hfs f hf) (hinv.wf a ha) (by rw [hfa])
    have hgb' : cgiName g = cgiName b := cgiName_eq_of_fold (hfs g hg) (hinv.wf b hb) (by rw [hgb])
    have hsame := hagree f hf g hg (by rw [hfa', hname, hgb'])
    rw [hfa, hgb, hab] at hsame
    nomatch hsame

/-- Among the written variables only the table decides uniqueness. -/
theorem uniqueHeaderVars_iff_nodup {vars : List Pair} {slots : List Pair}
    (hvars : ∀ e ∈ vars, ¬IsHeaderVar e.1) (hslots : ∀ e ∈ slots, IsHeaderVar e.1) :
    UniqueHeaderVars (vars ++ slots) ↔ (slots.map Prod.fst).Nodup := by
  have hcount : ∀ name, IsHeaderVar name →
      ((vars ++ slots).map Prod.fst).count name = (slots.map Prod.fst).count name := by
    intro name hname
    rw [map_append, count_append, count_eq_zero_of_not_mem, Nat.zero_add]
    intro hmem
    obtain ⟨e, he, rfl⟩ := mem_map.mp hmem
    exact hvars e he hname
  rw [nodup_iff_count_le_one]
  constructor
  · intro h name
    by_cases hname : name ∈ slots.map Prod.fst
    · obtain ⟨e, he, rfl⟩ := mem_map.mp hname
      rw [← hcount _ (hslots e he)]
      exact h _ (hslots e he)
    · rw [count_eq_zero_of_not_mem hname]
      omega
  · intro h name hname
    rw [hcount name hname]
    exact h name

/-- Each header variable occurs at most once in the packet exactly when no two
    fields give the same variable under names that differ by more than letter
    case.  When all lengths fit, this is also what a reader of the packet
    finds. -/
theorem uniqueHeaderVars_iff {cfg : HttpConfig} {block : Bytes} {req : HttpRequest}
    (h : http_parse cfg block = .ok req) :
    (UniqueHeaderVars (req.written.map Written.frame) ↔
      SpellingsAgree (receivedFields cfg block)) ∧
    (LengthsFit cfg block → ∃ es, packetVars req.buffer = some es ∧
      (UniqueHeaderVars es ↔ SpellingsAgree (receivedFields cfg block))) := by
  obtain ⟨-, hwritten, hinv⟩ := http_parse_ok h
  have hmain : UniqueHeaderVars (req.written.map Written.frame) ↔
      SpellingsAgree (receivedFields cfg block) := by
    rw [← nodup_cgiName_iff hinv receivedFields_wf, hwritten, map_append,
      uniqueHeaderVars_iff_nodup, map_map, map_map]
    · rfl
    · intro e he
      obtain ⟨v, hv, rfl⟩ := mem_map.mp he
      obtain ⟨p, hp, rfl⟩ := mem_map.mp hv
      exact requestVarNames_not_header _ (acceptedVars_names p hp)
    · intro e he
      obtain ⟨v, hv, rfl⟩ := mem_map.mp he
      obtain ⟨s, hs, rfl⟩ := mem_map.mp hv
      exact cgiName_isHeaderVar (hinv.wf s hs)
  refine ⟨hmain, fun hfit => ?_⟩
  have hfit' := (lengthsFit_iff h).mp hfit
  exact ⟨_, packetVars_of_fits h hfit', by rw [← frames_eq_pairs h hfit']; exact hmain⟩

/-- `X-Foo` and `X_Foo` are accepted side by side and both become
    `HTTP_X_FOO`. -/
theorem uniqueHeaderVars_fails :
    ∃ req, http_parse bigCfg (lit "GET / HTTP/1.1\r\nX-Foo: 1\r\nX_Foo: 2\r\n\r\n") = .ok req ∧
      ¬UniqueHeaderVars (req.written.map Written.frame) := by
  obtain ⟨req, hreq⟩ := exists_ok (by decide +kernel :
    (http_parse bigCfg (lit "GET / HTTP/1.1\r\nX-Foo: 1\r\nX_Foo: 2\r\n\r\n")).isOk = true)
  refine ⟨req, hreq, fun h => ?_⟩
  have hcount := h (lit "HTTP_X_FOO") (by decide)
  rw [(http_parse_ok hreq).2.1] at hcount
  exact absurd hcount (by decide +kernel)

theorem uniqueHeaderVars_twoAccepts :
    ∃ req, http_parse bigCfg (lit "GET / HTTP/1.1\r\nAccept: a\r\naccept: b\r\n\r\n") = .ok req ∧
      UniqueHeaderVars (req.written.map Written.frame) := by
  obtain ⟨req, hreq⟩ := exists_ok (by decide +kernel :
    (http_parse bigCfg (lit "GET / HTTP/1.1\r\nAccept: a\r\naccept: b\r\n\r\n")).isOk = true)
  exact ⟨req, hreq, (uniqueHeaderVars_iff hreq).1.mpr (by decide +kernel)⟩

end Upsgi
