import Upsgi.Core.Url
import Upsgi.Lib.Moves

/-! # Dot segments of PATH_INFO

    `http_url_decode4` removes dot segments while it decodes: a literal `.` or
    `..` between slashes is never written, and a `..` takes back the last
    segment of the output.  A dot that comes from an escape is written at once,
    and so is a dot behind an escaped slash.

    The path as it is written is a list of moves, one for each segment.  The
    segments of the output are those where the walk ends up; so a dot segment
    is in the output if one was entered and no later `..` leaves it.
-/

namespace Upsgi

open Framing (Bytes)
open Moves List

/-! ### The path as it is written -/

/-- A slash, another byte, or an escape with the bytes it stands for.  An escape
    that is cut off by the end of the path stands for none. -/
inductive UrlToken where
  | sep
  | byte (c : UInt8)
  | escape (bytes : Bytes)
  deriving DecidableEq, Repr

def escapeBytes (no_slash_decode : Bool) (a b : UInt8) : Bytes :=
  if no_slash_decode ∧ a = 50 ∧ (b = 70 ∨ b = 102) then [PERCENT, a, b] else [hex2num a b]

def urlTokens (no_slash_decode : Bool) : Bytes → List UrlToken
  | [] => []
  | c :: buf =>
      if c = SLASH then .sep :: urlTokens no_slash_decode buf
      else if c = PERCENT then
        match buf with
        | [] => [.escape []]
        | a :: buf =>
            if a = PERCENT then .escape [PERCENT] :: urlTokens no_slash_decode buf
            else
              -- any two bytes are taken, also a slash
              match buf with
              | [] => [.escape []]
              | b :: buf => .escape (escapeBytes no_slash_decode a b) :: urlTokens no_slash_decode buf
      else .byte c :: urlTokens no_slash_decode buf

theorem urlTokens_slash (no_slash_decode : Bool) (buf : Bytes) :
    urlTokens no_slash_decode (SLASH :: buf) = .sep :: urlTokens no_slash_decode buf := by
  rw [urlTokens.eq_def]
  exact if_pos rfl

def UrlToken.text : UrlToken → Bytes
  | .sep => [SLASH]
  | .byte c => [c]
  | .escape bytes => bytes

/-- The segments of the path up to a `#`, without the empty one in front of a
    leading slash. -/
def writtenSegments (no_slash_decode : Bool) (path : Bytes) : List (List UrlToken) :=
  let segments := (urlTokens no_slash_decode (path.takeWhile (· ≠ HASH))).splitOn .sep
  if path.head? = some SLASH then segments.tail else segments

/-- A literal dot segment stays or goes up; any other segment is entered, and
    it is more than one when an escaped slash is in it. -/
def segmentMoves (segment : List UrlToken) : List (Move Bytes) :=
  if segment = [.byte DOT] then []
  else if segment = [.byte DOT, .byte DOT] then [.leave]
  else ((segment.flatMap UrlToken.text).splitOn SLASH).map .enter

def pathMoves (no_slash_decode : Bool) (path : Bytes) : List (Move Bytes) :=
  (writtenSegments no_slash_decode path).flatMap segmentMoves

def IsDotSegment (segment : Bytes) : Prop :=
  segment = [DOT] ∨ segment = [DOT, DOT]

instance : DecidablePred IsDotSegment :=
  fun _ => inferInstanceAs (Decidable (_ ∨ _))

def NoDotSegments (path : Bytes) : Prop :=
  ∀ segment ∈ path.splitOn SLASH, ¬IsDotSegment segment

instance : DecidablePred NoDotSegments :=
  fun path => inferInstanceAs (Decidable (∀ segment ∈ path.splitOn SLASH, _))

/-! ### The output and the place of the walk -/

/-- The output has the segments of the place, maybe behind an empty one for a
    slash at its beginning. -/
def Shows (dst : Bytes) (place : List Bytes) : Prop :=
  dst.splitOn SLASH = place ∨ dst.splitOn SLASH = [] :: place

/-- The output up to the segment that is being written. -/
def Begins (base : Bytes) (place : List Bytes) : Prop :=
  (base = [] ∧ place = []) ∨ ∃ dst, base = dst ++ [SLASH] ∧ Shows dst place

theorem shows_nil : Shows [] [] :=
  .inr (splitOn_nil SLASH)

variable {dst path : Bytes}

theorem Shows.begins {place : List Bytes} (h : Shows dst place) :
    Begins (dst ++ [SLASH]) place :=
  .inr ⟨dst, rfl, h⟩

theorem splitOn_slash (a b : Bytes) :
    (a ++ SLASH :: b).splitOn SLASH = a.splitOn SLASH ++ b.splitOn SLASH :=
  splitOn_append_cons_self a b

theorem Begins.shows {base : Bytes} {place : List Bytes} (h : Begins base place) (text : Bytes) :
    Shows (base ++ text) (place ++ text.splitOn SLASH) := by
  rcases h with ⟨rfl, rfl⟩ | ⟨dst, rfl, hdst⟩
  · exact .inl rfl
  · rw [append_assoc, singleton_append]
    unfold Shows
    rw [splitOn_slash]
    rcases hdst with h | h
    · exact .inl (by rw [h])
    · exact .inr (by rw [h, cons_append])

/-- The last slash of the output, with the segment behind it. -/
theorem rdropWhile_slash_cases (dst : Bytes) :
    (SLASH ∉ dst ∧ dst.rdropWhile (· ≠ SLASH) = []) ∨
      ∃ front last, dst = front ++ SLASH :: last ∧ SLASH ∉ last ∧
        dst.rdropWhile (· ≠ SLASH) = front ++ [SLASH] := by
  induction dst using List.reverseRecOn with
  | nil => exact .inl ⟨not_mem_nil, rfl⟩
  | append_singleton dst c ih =>
    by_cases hc : c = SLASH
    · subst hc
      refine .inr ⟨dst, [], rfl, not_mem_nil, ?_⟩
      exact rdropWhile_concat_neg _ _ _ (by simp)
    · rw [rdropWhile_concat_pos _ _ _ (by simpa using hc)]
      rcases ih with ⟨hmem, hdrop⟩ | ⟨front, last, rfl, hmem, hdrop⟩
      · refine .inl ⟨?_, hdrop⟩
        simp [hmem, Ne.symm hc]
      · refine .inr ⟨front, last ++ [c], by simp, ?_, hdrop⟩
        simp [hmem, Ne.symm hc]

theorem Shows.leave {front last : Bytes} {place : List Bytes} (hlast : SLASH ∉ last)
    (h : Shows (front ++ SLASH :: last) place) : Shows front place.dropLast := by
  unfold Shows at h
  rw [splitOn_slash, splitOn_eq_singleton hlast] at h
  rcases h with h | h
  · exact .inl (by rw [← h, dropLast_concat])
  · -- the empty segment in front is not the last one
    refine .inr ?_
    have hdrop := congrArg List.dropLast h
    rw [dropLast_concat] at hdrop
    cases place with
    | nil => exact absurd hdrop (splitOn_ne_nil SLASH front)
    | cons name place => rwa [dropLast_cons_cons] at hdrop

theorem Shows.leave_only {place : List Bytes} (hdst : SLASH ∉ dst)
    (h : Shows dst place) : place.dropLast = [] := by
  unfold Shows at h
  rw [splitOn_eq_singleton hdst] at h
  rcases h with h | h
  · rw [← h]
    rfl
  · rw [← (List.cons.inj h).2]
    rfl

theorem Shows.dropSegment {place : List Bytes} (h : Shows dst place) :
    Shows (dropSegment dst) place.dropLast := by
  unfold Upsgi.dropSegment
  rcases rdropWhile_slash_cases dst with ⟨hmem, hdrop⟩ | ⟨front, last, rfl, hmem, hdrop⟩
  · rw [hdrop, h.leave_only hmem]
    exact shows_nil
  · rw [hdrop, dropLast_concat]
    exact h.leave hmem

/-- The output and the place have the same segments, up to empty ones. -/
def SameNames (dst : Bytes) (place : List Bytes) : Prop :=
  ∀ name, name ≠ [] → (name ∈ dst.splitOn SLASH ↔ name ∈ place)

theorem Shows.sameNames {place : List Bytes} (h : Shows dst place) :
    SameNames dst place := by
  intro name hname
  rcases h with h | h <;> rw [h]
  simp [hname]

theorem Shows.sameNames_slash {place : List Bytes} (h : Shows dst place) :
    SameNames (dst ++ [SLASH]) place := by
  intro name hname
  rw [splitOn_slash, ← h.sameNames name hname]
  simp [hname]

/-! ### One token -/

/-- The state of the decoder in the middle of a segment. -/
def tokenStatus (segment : List UrlToken) : UrlStatus :=
  if segment = [] then .slash
  else if segment = [.byte DOT] then .dot
  else if segment = [.byte DOT, .byte DOT] then .dotdot
  else .zero

/-- The output with the slash and the dots that are held back. -/
def UrlState.opened (no_slash : Bool) (i : Nat) (st : UrlState) : Bytes :=
  match st.status with
  | .slash => if 0 < i ∨ no_slash = false then st.dst ++ [SLASH] else st.dst
  | .dot => (if 1 < i then st.dst ++ [SLASH] else st.dst) ++ [DOT]
  | .dotdot => (if 2 < i then st.dst ++ [SLASH] else st.dst) ++ [DOT, DOT]
  | _ => st.dst

/-- The decoder has walked to `place` and read the tokens of a segment since. -/
structure InSegment (no_slash : Bool) (i : Nat) (st : UrlState) (place : List Bytes)
    (segment : List UrlToken) : Prop where
  started : no_slash = true ∨ 0 < i
  no_sep : UrlToken.sep ∉ segment
  status : st.status = tokenStatus segment
  opened : ∃ base, st.opened no_slash i = base ++ segment.flatMap UrlToken.text ∧ Begins base place
  shown : tokenStatus segment ≠ .zero → Shows st.dst place

variable {no_slash_decode no_slash : Bool} {i : Nat} {st : UrlState} {place : List Bytes}
  {segment : List UrlToken}

theorem tokenStatus_escape (segment : List UrlToken) (bytes : Bytes) :
    tokenStatus (segment ++ [.escape bytes]) = .zero := by
  cases segment with
  | nil => simp [tokenStatus]
  | cons t segment =>
    cases segment with
    | nil | cons t' segment => simp [tokenStatus]

theorem tokenStatus_cases (segment : List UrlToken) :
    segment = [] ∨ segment = [.byte DOT] ∨ segment = [.byte DOT, .byte DOT] ∨
      (tokenStatus segment = .zero ∧
        segmentMoves segment = ((segment.flatMap UrlToken.text).splitOn SLASH).map .enter) := by
  by_cases h0 : segment = []
  · exact .inl h0
  by_cases h1 : segment = [.byte DOT]
  · exact .inr (.inl h1)
  by_cases h2 : segment = [.byte DOT, .byte DOT]
  · exact .inr (.inr (.inl h2))
  · refine .inr (.inr (.inr ?_))
    simp only [tokenStatus, segmentMoves, h0, h1, h2, if_false, and_self]

theorem tokenStatus_concat (t : UrlToken) (h : tokenStatus segment = .zero) :
    tokenStatus (segment ++ [t]) = .zero := by
  rcases tokenStatus_cases (segment ++ [t]) with h0 | h1 | h2 | ⟨hzero, -⟩
  · exact absurd h0 (append_ne_nil_of_right_ne_nil _ (cons_ne_nil t []))
  · have hone : segment ++ [t] = [] ++ [.byte DOT] := h1
    obtain ⟨rfl, -⟩ := append_inj' hone rfl
    cases h
  · have htwo : segment ++ [t] = [.byte DOT] ++ [.byte DOT] := h2
    obtain ⟨rfl, -⟩ := append_inj' htwo rfl
    cases h
  · exact hzero

/-- An escape writes what is held back. -/
theorem step_percent (h : st.status = tokenStatus segment) :
    http_url_decode4_step no_slash_decode no_slash i st PERCENT =
      ⟨.percent1, st.value0, st.opened no_slash i⟩ := by
  obtain ⟨status, value0, dst⟩ := st
  subst h
  rcases tokenStatus_cases segment with rfl | rfl | rfl | ⟨hzero, -⟩
  · rfl
  · rfl
  · rfl
  · rw [hzero]
    rfl

/-- Another byte is written or held back, behind all that stands before it. -/
theorem step_byte (no_slash_decode : Bool) {c : UInt8} (hstarted : no_slash = true ∨ 0 < i)
    (h : st.status = tokenStatus segment) (hslash : c ≠ SLASH) (hpercent : c ≠ PERCENT) :
    let st' := http_url_decode4_step no_slash_decode no_slash i st c
    st'.opened no_slash (i + 1) = st.opened no_slash i ++ [c] ∧
      st'.status = tokenStatus (segment ++ [.byte c]) ∧ (st'.status ≠ .zero → st'.dst = st.dst) := by
  obtain ⟨status, value0, dst⟩ := st
  subst h
  rcases tokenStatus_cases segment with rfl | rfl | rfl | ⟨hzero, -⟩
  · have hfirst : (0 < i ∨ no_slash = false) ↔ 0 < i := by
      rcases hstarted with rfl | hi
      · simp
      · simp [hi]
    by_cases hdot : c = DOT
    · subst hdot
      refine ⟨?_, rfl, fun _ => rfl⟩
      simp only [tokenStatus, http_url_decode4_step, UrlState.opened, if_true, hfirst,
        Nat.lt_add_left_iff_pos]
    · simp [tokenStatus, http_url_decode4_step, UrlState.opened, hfirst, hdot, hslash, hpercent]
  · by_cases hdot : c = DOT
    · subst hdot
      refine ⟨?_, rfl, fun _ => rfl⟩
      have hlt : 2 < i + 1 ↔ 1 < i := by omega
      simp [tokenStatus, http_url_decode4_step, UrlState.opened, hlt]
    · simp [tokenStatus, http_url_decode4_step, UrlState.opened, hdot, hslash, hpercent]
  · simp [tokenStatus, http_url_decode4_step, UrlState.opened, hslash, hpercent]
  · rw [hzero, tokenStatus_concat _ hzero]
    simp [http_url_decode4_step, UrlState.opened, hslash, hpercent]

theorem InSegment.byte (no_slash_decode : Bool) (h : InSegment no_slash i st place segment) {c : UInt8}
    (hslash : c ≠ SLASH) (hpercent : c ≠ PERCENT) :
    InSegment no_slash (i + 1) (http_url_decode4_step no_slash_decode no_slash i st c) place
      (segment ++ [.byte c]) := by
  obtain ⟨hstarted, hsep, hstatus, ⟨base, hopened, hbegins⟩, hshown⟩ := h
  obtain ⟨hopened', hstatus', hdst⟩ := step_byte no_slash_decode hstarted hstatus hslash hpercent
  refine ⟨.inr (Nat.succ_pos i), by simp [hsep], hstatus', ⟨base, ?_, hbegins⟩, fun hne => ?_⟩
  · rw [hopened', hopened]
    simp [UrlToken.text]
  · rw [hdst (hstatus' ▸ hne)]
    exact hshown fun hzero => hne (tokenStatus_concat _ hzero)

/-- An escape that is complete: its bytes are written behind what was held
    back, and the segment is an ordinary one from here on. -/
theorem InSegment.escape (h : InSegment no_slash i st place segment) (bytes : Bytes) {j : Nat}
    (hj : 0 < j) (value0 : UInt8) :
    InSegment no_slash j ⟨.zero, value0, st.opened no_slash i ++ bytes⟩ place
      (segment ++ [.escape bytes]) := by
  obtain ⟨-, hsep, -, ⟨base, hopened, hbegins⟩, -⟩ := h
  have hzero := tokenStatus_escape segment bytes
  refine ⟨.inr hj, by simp [hsep], hzero.symm, ⟨base, ?_, hbegins⟩, fun hne => absurd hzero hne⟩
  rw [hopened]
  simp [UrlState.opened, UrlToken.text]

/-- What a slash behind a segment makes of the output. -/
theorem step_slash_dst (no_slash_decode : Bool) (h : InSegment no_slash i st place segment) :
    let st' := http_url_decode4_step no_slash_decode no_slash i st SLASH
    st'.status = .slash ∧ Shows st'.dst (walk place (segmentMoves segment)) := by
  obtain ⟨-, -, hstatus, ⟨base, hopened, hbegins⟩, hshown⟩ := h
  obtain ⟨status, value0, dst⟩ := st
  subst hstatus
  rcases tokenStatus_cases segment with rfl | rfl | rfl | ⟨hzero, hmoves⟩
  · refine ⟨rfl, ?_⟩
    have hempty := hbegins.shows []
    rw [show base ++ [] = _ from hopened.symm] at hempty
    exact hempty
  · exact ⟨rfl, hshown nofun⟩
  · exact ⟨rfl, (hshown nofun).dropSegment⟩
  · rw [hzero] at hopened ⊢
    rw [hmoves, walk_enters]
    refine ⟨rfl, ?_⟩
    have htext := hbegins.shows (segment.flatMap UrlToken.text)
    rw [← hopened] at htext
    exact htext

theorem InSegment.sep (no_slash_decode : Bool) (h : InSegment no_slash i st place segment) :
    InSegment no_slash (i + 1) (http_url_decode4_step no_slash_decode no_slash i st SLASH)
      (walk place (segmentMoves segment)) [] := by
  obtain ⟨hstatus, hshows⟩ := step_slash_dst no_slash_decode h
  refine ⟨.inr (Nat.succ_pos i), not_mem_nil, hstatus, ⟨_, ?_, hshows.begins⟩, fun _ => hshows⟩
  unfold UrlState.opened
  rw [hstatus]
  simp

/-- The final switch: an ordinary segment is in the output as it is, and a
    literal dot segment leaves a slash there. -/
theorem InSegment.finish (h : InSegment no_slash i st place segment) :
    SameNames (http_url_decode4_end st) (walk place (segmentMoves segment)) := by
  obtain ⟨-, -, hstatus, ⟨base, hopened, hbegins⟩, hshown⟩ := h
  obtain ⟨status, value0, dst⟩ := st
  subst hstatus
  rcases tokenStatus_cases segment with rfl | rfl | rfl | ⟨hzero, hmoves⟩
  · have hshows := (hshown nofun).begins.shows []
    rw [append_nil] at hshows
    exact hshows.sameNames
  · exact (hshown nofun).sameNames_slash
  · have hshows := hshown nofun
    show SameNames (dst.rdropWhile (· ≠ SLASH)) place.dropLast
    rcases rdropWhile_slash_cases dst with ⟨hmem, hdrop⟩ | ⟨front, last, rfl, hmem, hdrop⟩
    · rw [hdrop, hshows.leave_only hmem]
      exact shows_nil.sameNames
    · rw [hdrop]
      exact (hshows.leave hmem).sameNames_slash
  · rw [hzero] at hopened ⊢
    rw [hmoves, walk_enters]
    have htext := hbegins.shows (segment.flatMap UrlToken.text)
    rw [← hopened] at htext
    exact htext.sameNames

/-- An escape that the end of the path cuts off. -/
theorem InSegment.cut (h : InSegment no_slash i st place segment) :
    SameNames (st.opened no_slash i) (walk place (segmentMoves (segment ++ [.escape []]))) := by
  have hfinish := (h.escape [] (Nat.succ_pos i) st.value0).finish
  rw [append_nil] at hfinish
  exact hfinish

/-! ### The whole path -/

theorem loop_takeWhile (no_slash_decode no_slash : Bool) (buf : Bytes) (i : Nat) (st : UrlState) :
    http_url_decode4_loop no_slash_decode no_slash i st buf =
      http_url_decode4_loop no_slash_decode no_slash i st (buf.takeWhile (· ≠ HASH)) := by
  induction buf generalizing i st with
  | nil => rfl
  | cons c buf ih =>
    by_cases hc : c = HASH
    · simp [http_url_decode4_loop, hc]
    · simp [http_url_decode4_loop, hc, ih]

theorem loop_cons {c : UInt8} (hc : c ≠ HASH) (buf : Bytes) :
    http_url_decode4_loop no_slash_decode no_slash i st (c :: buf) =
      http_url_decode4_loop no_slash_decode no_slash (i + 1)
        (http_url_decode4_step no_slash_decode no_slash i st c) buf :=
  if_neg hc

theorem step_percent1 {a : UInt8} (ha : a ≠ PERCENT) (value0 : UInt8) (dst : Bytes) :
    http_url_decode4_step no_slash_decode no_slash i ⟨.percent1, value0, dst⟩ a =
      ⟨.percent2, a, dst⟩ :=
  if_neg ha

theorem step_percent2 (a b : UInt8) (dst : Bytes) :
    http_url_decode4_step no_slash_decode no_slash i ⟨.percent2, a, dst⟩ b =
      ⟨.zero, a, dst ++ escapeBytes no_slash_decode a b⟩ := by
  unfold http_url_decode4_step escapeBytes
  dsimp only
  split <;> rfl

theorem splitOn_sep_append (h : UrlToken.sep ∉ segment) (tokens : List UrlToken) :
    (segment ++ .sep :: tokens).splitOn .sep = segment :: tokens.splitOn .sep :=
  splitOn_append_cons_self_of_not_mem h tokens

/-- The decoder walks along the segments that are left.  The induction is over
    the tokens, so an escape is one step of it. -/
theorem InSegment.loop (no_slash_decode : Bool) (buf : Bytes) (hhash : HASH ∉ buf)
    (h : InSegment no_slash i st place segment) :
    SameNames
      (http_url_decode4_end (http_url_decode4_loop no_slash_decode no_slash i st buf))
      (walk place
        (((segment ++ urlTokens no_slash_decode buf).splitOn .sep).flatMap segmentMoves)) := by
  have hone : ∀ {segment : List UrlToken}, UrlToken.sep ∉ segment →
      (segment.splitOn UrlToken.sep).flatMap segmentMoves = segmentMoves segment := by
    intro segment hsep
    rw [splitOn_eq_singleton hsep, flatMap_singleton]
  fun_induction urlTokens no_slash_decode buf generalizing i st place segment with
  | case1 =>
    rw [append_nil, hone h.no_sep]
    exact h.finish
  | case2 buf ih =>
    rw [splitOn_sep_append h.no_sep, flatMap_cons, walk_append]
    exact ih (fun hmem => hhash (mem_cons_of_mem _ hmem)) (h.sep no_slash_decode)
  | case3 =>
    rw [loop_cons (by decide), step_percent h.status]
    rw [hone (by simp [h.no_sep])]
    exact h.cut
  | case4 _ buf ih =>
    rw [loop_cons (by decide), step_percent h.status, loop_cons (by decide)]
    have hnext := ih (fun hmem => hhash (mem_cons_of_mem _ (mem_cons_of_mem _ hmem)))
      (h.escape [PERCENT] (Nat.succ_pos (i + 1)) st.value0)
    rw [append_assoc, singleton_append] at hnext
    exact hnext
  | case5 a ha _ =>
    have hhash' : a ≠ HASH := fun heq => hhash (by simp [heq])
    rw [loop_cons (by decide), step_percent h.status, loop_cons hhash', step_percent1 ha]
    rw [hone (by simp [h.no_sep])]
    exact h.cut
  | case6 a ha b buf _ ih =>
    have ha' : a ≠ HASH := fun heq => hhash (by simp [heq])
    have hb' : b ≠ HASH := fun heq => hhash (by simp [heq])
    rw [loop_cons (by decide), step_percent h.status, loop_cons ha', step_percent1 ha,
      loop_cons hb', step_percent2]
    have hnext := ih (fun hmem => hhash (by simp [hmem]))
      (h.escape (escapeBytes no_slash_decode a b) (Nat.succ_pos (i + 2)) a)
    rw [append_assoc, singleton_append] at hnext
    exact hnext
  | case7 c buf hslash hpercent ih =>
    have hc : c ≠ HASH := fun heq => hhash (by simp [heq])
    rw [loop_cons hc]
    have hnext := ih (fun hmem => hhash (mem_cons_of_mem _ hmem))
      (h.byte no_slash_decode hslash hpercent)
    rw [append_assoc, singleton_append] at hnext
    exact hnext

theorem not_mem_takeWhile_hash (path : Bytes) : HASH ∉ path.takeWhile (· ≠ HASH) := by
  intro hmem
  simpa using mem_takeWhile_imp hmem

theorem http_url_decode4_sameNames (path : Bytes) (no_slash_decode : Bool) :
    SameNames (http_url_decode4 path no_slash_decode) (walk [] (pathMoves no_slash_decode path)) := by
  unfold http_url_decode4 pathMoves writtenSegments
  dsimp only
  rw [loop_takeWhile]
  cases path with
  | nil => exact Shows.sameNames (.inl rfl)
  | cons c path =>
    by_cases hc : c = SLASH
    · -- the first slash brings the decoder to the beginning of a segment
      subst hc
      have hstart : InSegment false 1 ⟨.slash, 48, []⟩ [] [] :=
        ⟨.inr Nat.zero_lt_one, not_mem_nil, rfl, ⟨[SLASH], rfl, shows_nil.begins⟩,
          fun _ => shows_nil⟩
      have hloop := hstart.loop no_slash_decode _ (not_mem_takeWhile_hash path)
      have hsplit : (urlTokens no_slash_decode (SLASH :: path.takeWhile (· ≠ HASH))).splitOn .sep =
          [] :: (urlTokens no_slash_decode (path.takeWhile (· ≠ HASH))).splitOn .sep := by
        rw [urlTokens_slash]
        exact splitOn_sep_append not_mem_nil _
      rw [takeWhile_cons_of_pos (by decide), hsplit]
      exact hloop
    · have hstart : InSegment true 0 ⟨.slash, 48, []⟩ [] [] :=
        ⟨.inl rfl, not_mem_nil, rfl, ⟨[], rfl, .inl ⟨rfl, rfl⟩⟩, fun _ => shows_nil⟩
      have hloop := hstart.loop no_slash_decode _ (not_mem_takeWhile_hash (c :: path))
      have hne : ¬(c :: path).head? = some SLASH := by simpa using hc
      rw [if_neg hne]
      simpa only [decide_eq_true hc, if_true, nil_append] using hloop

/-- The segments of the output are those that were entered and never left. -/
theorem mem_decoded_iff {name : Bytes} (no_slash_decode : Bool) (hname : name ≠ []) :
    name ∈ (http_url_decode4 path no_slash_decode).splitOn SLASH ↔
      ∃ pre post, pathMoves no_slash_decode path = pre ++ .enter name :: post ∧
        ¬∃ p, p <+: post ∧ enters p < leaves p := by
  rw [http_url_decode4_sameNames path no_slash_decode name hname, mem_walk_iff]

theorem IsDotSegment.ne_nil {segment : Bytes} (h : IsDotSegment segment) : segment ≠ [] := by
  rcases h with rfl | rfl <;> exact cons_ne_nil _ _

/-- The output has no dot segment exactly if each one that the path enters is
    left again: some part of the path behind it has more literal `..` than
    other segments. -/
theorem dot_segments_removed_iff (path : Bytes) (no_slash_decode : Bool) :
    NoDotSegments (http_url_decode4 path no_slash_decode) ↔
      ∀ pre segment post, pathMoves no_slash_decode path = pre ++ .enter segment :: post →
        IsDotSegment segment → ∃ p, p <+: post ∧ enters p < leaves p := by
  constructor
  · intro hno pre segment post hmoves hdot
    by_contra hstays
    exact hno segment ((mem_decoded_iff no_slash_decode hdot.ne_nil).mpr ⟨pre, post, hmoves, hstays⟩)
      hdot
  · intro hleft segment hmem hdot
    obtain ⟨pre, post, hmoves, hstays⟩ := (mem_decoded_iff no_slash_decode hdot.ne_nil).mp hmem
    exact hstays (hleft pre segment post hmoves hdot)

/-- A parent segment that is written with escapes stays in the output, with
    either treatment of escaped slashes. -/
theorem dot_segments_escaped :
    ¬NoDotSegments (http_url_decode4 (lit "/%2e%2e/x") false) ∧
      ¬NoDotSegments (http_url_decode4 (lit "/%2e%2e/x") true) := by
  decide

-- a literal `..` takes the escaped one back
example : http_url_decode4 (lit "/%2e%2e/../x") false = lit "/x" := by decide

end Upsgi
