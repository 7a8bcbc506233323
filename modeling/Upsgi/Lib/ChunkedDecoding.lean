import Upsgi.Lib.ChunkedCoding

/-! # Decoding a stream of chunks

    A decoder that has the whole rest of the stream before it, as a reference
    for those that get it piece by piece.  In each phase it either goes on,
    hands out a chunk, refuses the stream, or lacks bytes; which of these is
    a function of the rest of the stream.  Chunks of `limit` bytes or more are
    refused.

    The reference decoder completes a body exactly when the body is one of the
    chunked coding with chunks below the limit.
-/

namespace ChunkedCoding

open List

/-! ### Bodies and their chunks -/

/-- A complete body and the bytes of its chunks. -/
inductive SeqOf : Bytes → List Bytes → Prop where
  | last (digits : Bytes) (hsize : IsSize digits) (hvalue : value digits = 0) :
      SeqOf (digits ++ crlf ++ crlf) []
  | chunk (digits data rest : Bytes) (chunks : List Bytes) (hsize : IsSize digits)
      (hvalue : value digits = data.length) (hdata : data ≠ []) (hrest : SeqOf rest chunks) :
      SeqOf (digits ++ crlf ++ data ++ crlf ++ rest) (data :: chunks)

/-! ### The reference decoder -/

/-- What the decoder waits for. -/
inductive Phase where
  | line
  | data (n : Nat)
  | final
  | complete
  deriving DecidableEq

/-- What it finds at the head of the stream. -/
inductive Look where
  /-- Too few bytes to tell, or nothing left to do. -/
  | stuck
  /-- The stream is refused, where it stands at `rest`. -/
  | refuse (rest : Bytes)
  | go (phase : Phase) (rest : Bytes)
  /-- A chunk; a chunk line is next. -/
  | emit (data rest : Bytes)

def lookLine (limit : Nat) (stream : Bytes) : Look :=
  let digits := stream.takeWhile isDigit
  match stream.drop digits.length with
  | [] => .stuck
  | [c] => if c = 13 then .stuck else .refuse stream
  | c :: c' :: rest =>
      if c = 13 ∧ c' = 10 then
        if digits = [] then .refuse stream
        else if value digits = 0 then .go .final rest
        else if value digits < limit then .go (.data (value digits)) rest
        else .refuse rest
      else .refuse stream

def lookData (n : Nat) (stream : Bytes) : Look :=
  if stream.length < n + 2 then .stuck
  else if (stream.drop n).take 2 = crlf then .emit (stream.take n) (stream.drop (n + 2))
  else .refuse stream

def lookFinal (stream : Bytes) : Look :=
  if stream.length < 2 then .stuck
  else if stream.take 2 = crlf then .go .complete (stream.drop 2)
  else .refuse stream

/-- What the decoder finds, by phase. -/
def look (limit : Nat) : Phase → Bytes → Look
  | .line, stream => lookLine limit stream
  | .data n, stream => lookData n stream
  | .final, stream => lookFinal stream
  | .complete, _ => .stuck

/-- The decoder gets from one place of the stream to another one and hands out
    `chunks` on the way. -/
inductive Reaches (limit : Nat) : Phase → Bytes → List Bytes → Phase → Bytes → Prop where
  | refl (p : Phase) (s : Bytes) : Reaches limit p s [] p s
  | go {p p' q : Phase} {s s' t : Bytes} {chunks : List Bytes} (hlook : look limit p s = .go p' s')
      (hrest : Reaches limit p' s' chunks q t) : Reaches limit p s chunks q t
  | emit {p q : Phase} {s s' t data : Bytes} {chunks : List Bytes}
      (hlook : look limit p s = .emit data s') (hrest : Reaches limit .line s' chunks q t) :
      Reaches limit p s (data :: chunks) q t

/-- The decoder does not go on. -/
def Halted (limit : Nat) (p : Phase) (s : Bytes) : Prop :=
  look limit p s = .stuck ∨ ∃ rest, look limit p s = .refuse rest

variable {limit : Nat} {p q q' : Phase} {s t t' : Bytes} {chunks chunks' : List Bytes}

theorem Reaches.trans (h : Reaches limit p s chunks q t) (h' : Reaches limit q t chunks' q' t') :
    Reaches limit p s (chunks ++ chunks') q' t' := by
  induction h with
  | refl => exact h'
  | go hlook _ ih => exact .go hlook (ih h')
  | emit hlook _ ih => exact .emit hlook (ih h')

theorem Halted.not_go {p' : Phase} {s' : Bytes} (h : Halted limit p s) :
    look limit p s ≠ .go p' s' := by
  intro hlook
  rcases h with h | ⟨rest, h⟩ <;> cases h.symm.trans hlook

variable {data digits stream tail : Bytes}

theorem Halted.not_emit {s' : Bytes} (h : Halted limit p s) :
    look limit p s ≠ .emit data s' := by
  intro hlook
  rcases h with h | ⟨rest, h⟩ <;> cases h.symm.trans hlook

theorem Halted.reaches (h : Halted limit p s) (hreach : Reaches limit p s chunks q t) :
    chunks = [] ∧ q = p ∧ t = s := by
  cases hreach with
  | refl => exact ⟨rfl, rfl, rfl⟩
  | go hlook _ => exact absurd hlook h.not_go
  | emit hlook _ => exact absurd hlook h.not_emit

section

variable (h : Reaches limit p s chunks q t) (h' : Reaches limit p s chunks' q' t')
include h h'

/-- The way to a halt leads over every place that is reached. -/
theorem Reaches.factor (hhalt : Halted limit q' t') : ∃ more, chunks' = chunks ++ more ∧ Reaches limit q t more q' t' := by
  induction h generalizing chunks' with
  | refl => exact ⟨chunks', rfl, h'⟩
  | go hlook hrest ih =>
    cases h' with
    | refl => exact absurd hlook hhalt.not_go
    | go hlook' hrest' =>
      obtain ⟨rfl, rfl⟩ := Look.go.inj (hlook.symm.trans hlook')
      exact ih hrest'
    | emit hlook' hrest' => cases hlook.symm.trans hlook'
  | emit hlook hrest ih =>
    cases h' with
    | refl => exact absurd hlook hhalt.not_emit
    | go hlook' hrest' => cases hlook.symm.trans hlook'
    | emit hlook' hrest' =>
      obtain ⟨rfl, rfl⟩ := Look.emit.inj (hlook.symm.trans hlook')
      obtain ⟨more, rfl, hmore⟩ := ih hrest'
      exact ⟨more, rfl, hmore⟩

/-- The decoder halts at one place only. -/
theorem Reaches.unique (hhalt : Halted limit q t) (hhalt' : Halted limit q' t') :
    chunks = chunks' ∧ q = q' ∧ t = t' := by
  obtain ⟨more, rfl, hmore⟩ := h.factor h' hhalt'
  obtain ⟨rfl, rfl, rfl⟩ := hhalt.reaches hmore
  exact ⟨by rw [append_nil], rfl, rfl⟩

end

theorem halted_complete (s : Bytes) : Halted limit .complete s := Or.inl rfl

/-! ### Chunk lines -/

theorem drop_takeWhile_isDigit {digits : Bytes} (h : ∀ c ∈ digits, isDigit c = true) {c : UInt8}
    (hc : isDigit c = false) (rest : Bytes) :
    (digits ++ c :: rest).takeWhile isDigit = digits ∧
      (digits ++ c :: rest).drop digits.length = c :: rest := by
  constructor
  · rw [takeWhile_append_of_pos h, takeWhile_cons_of_neg (by simp [hc]), append_nil]
  · exact drop_left

/-- A whole chunk line. -/
theorem lookLine_line (h : IsSize digits) (rest : Bytes) :
    lookLine limit (digits ++ crlf ++ rest) =
      if value digits = 0 then .go .final rest
      else if value digits < limit then .go (.data (value digits)) rest
      else .refuse rest := by
  obtain ⟨htake, hdrop⟩ := drop_takeWhile_isDigit h.2 (show isDigit 13 = false by decide) (10 :: rest)
  rw [show digits ++ crlf ++ rest = digits ++ 13 :: 10 :: rest by simp [crlf]]
  unfold lookLine
  dsimp only
  rw [htake, hdrop]
  dsimp only
  rw [if_pos ⟨rfl, rfl⟩, if_neg h.1]

section

variable (h : ∀ c ∈ digits, isDigit c = true)
include h

/-- Another byte than a digit or the line end. -/
theorem lookLine_byte {c : UInt8} (hc : isDigit c = false) (hcr : c ≠ 13) (rest : Bytes) :
    lookLine limit (digits ++ c :: rest) = .refuse (digits ++ c :: rest) := by
  obtain ⟨htake, hdrop⟩ := drop_takeWhile_isDigit h hc rest
  unfold lookLine
  dsimp only
  rw [htake, hdrop]
  cases rest with
  | nil => exact if_neg hcr
  | cons c' rest => exact if_neg fun hcrlf => hcr hcrlf.1

/-- A line end that is none. -/
theorem lookLine_lineEnd {c : UInt8} (hlf : c ≠ 10) (rest : Bytes) :
    lookLine limit (digits ++ 13 :: c :: rest) = .refuse (digits ++ 13 :: c :: rest) := by
  obtain ⟨htake, hdrop⟩ := drop_takeWhile_isDigit h (show isDigit 13 = false by decide) (c :: rest)
  unfold lookLine
  dsimp only
  rw [htake, hdrop]
  exact if_neg fun hcrlf => hlf hcrlf.2

/-- The beginning of a line. -/
theorem lookLine_part :
    lookLine limit digits = .stuck ∧ lookLine limit (digits ++ [13]) = .stuck := by
  constructor
  · unfold lookLine
    dsimp only
    rw [takeWhile_eq_self_iff.mpr h, drop_length]
  · obtain ⟨htake, hdrop⟩ := drop_takeWhile_isDigit h (show isDigit 13 = false by decide) []
    unfold lookLine
    dsimp only
    rw [htake, hdrop]
    rfl

end

/-- The line was read when the decoder goes on. -/
theorem lookLine_go {p' : Phase} {rest : Bytes} (h : lookLine limit stream = .go p' rest) :
    ∃ digits, IsSize digits ∧ stream = digits ++ crlf ++ rest ∧
      ((value digits = 0 ∧ p' = .final) ∨
        (value digits ≠ 0 ∧ value digits < limit ∧ p' = .data (value digits))) := by
  unfold lookLine at h
  dsimp only at h
  split at h
  · cases h
  · split at h <;> cases h
  · next c c' after hdrop =>
    split at h
    · next hcrlf =>
      obtain ⟨rfl, rfl⟩ := hcrlf
      split at h
      · cases h
      · next hne =>
        have hsize : IsSize (stream.takeWhile isDigit) :=
          ⟨hne, fun c hc => mem_takeWhile_imp hc⟩
        have hstream : ∀ rest', after = rest' →
            stream = stream.takeWhile isDigit ++ crlf ++ rest' := by
          intro rest' hrest
          have h := take_append_drop (stream.takeWhile isDigit).length stream
          rw [← prefix_iff_eq_take.mp ( takeWhile_prefix isDigit), hdrop, hrest] at h
          rw [append_assoc]
          exact h.symm
        refine ⟨stream.takeWhile isDigit, hsize, ?_⟩
        split at h
        · next hzero =>
          obtain ⟨rfl, rfl⟩ := Look.go.inj h
          exact ⟨hstream _ rfl, Or.inl ⟨hzero, rfl⟩⟩
        · next hnz =>
          split at h
          · next hlt =>
            obtain ⟨rfl, rfl⟩ := Look.go.inj h
            exact ⟨hstream _ rfl, Or.inr ⟨hnz, hlt, rfl⟩⟩
          · cases h
    · cases h

theorem lookLine_not_emit {rest : Bytes} : lookLine limit stream ≠ .emit data rest := by
  intro h
  unfold lookLine at h
  dsimp only at h
  repeat' split at h
  all_goals cases h

/-- Every step takes bytes off the stream. -/
theorem look_length :
    (∀ p' s', look limit p s = .go p' s' → s'.length ≤ s.length) ∧
      ∀ data s', look limit p s = .emit data s' → s'.length + 1 ≤ s.length := by
  constructor
  · intro p' s' h
    cases p with
    | line =>
      obtain ⟨digits, _, rfl, _⟩ := lookLine_go h
      simp only [length_append]
      omega
    | data n =>
      change lookData n s = _ at h
      unfold lookData at h
      split_ifs at h
    | final =>
      change lookFinal s = _ at h
      unfold lookFinal at h
      split_ifs at h
      obtain ⟨rfl, rfl⟩ := Look.go.inj h
      rw [length_drop]
      omega
    | complete => cases h
  · intro data s' h
    cases p with
    | line => exact absurd h lookLine_not_emit
    | data n =>
      change lookData n s = _ at h
      unfold lookData at h
      split_ifs at h
      obtain ⟨rfl, rfl⟩ := Look.emit.inj h
      rw [length_drop]
      omega
    | final =>
      change lookFinal s = _ at h
      unfold lookFinal at h
      split_ifs at h
    | complete => cases h

theorem Reaches.length_le (h : Reaches limit p s chunks q t) :
    t.length + chunks.length ≤ s.length := by
  induction h with
  | refl => simp
  | go hlook _ ih =>
    have := look_length.1 _ _ hlook
    omega
  | emit hlook _ ih =>
    have := look_length.2 _ _ hlook
    rw [length_cons]
    omega

/-! ### The reference decoder and the coding -/

theorem look_last (limit : Nat) (hsize : IsSize digits) (hvalue : value digits = 0) (tail : Bytes) :
    look limit .line (digits ++ crlf ++ crlf ++ tail) = .go .final (crlf ++ tail) := by
  show lookLine _ _ = _
  rw [append_assoc, lookLine_line hsize, if_pos hvalue]

/-- The line of a chunk. -/
theorem look_chunk (limit : Nat) (hsize : IsSize digits) (hvalue : value digits = data.length)
    (hdata : data ≠ []) (rest tail : Bytes) :
    look limit .line (digits ++ crlf ++ data ++ crlf ++ rest ++ tail) =
      if data.length < limit then .go (.data data.length) (data ++ crlf ++ (rest ++ tail))
      else .refuse (data ++ crlf ++ (rest ++ tail)) := by
  have hpos : data.length ≠ 0 := by
    intro hzero
    exact hdata (eq_nil_of_length_eq_zero hzero)
  show lookLine _ _ = _
  rw [show digits ++ crlf ++ data ++ crlf ++ rest ++ tail =
    digits ++ crlf ++ (data ++ crlf ++ (rest ++ tail)) by simp]
  rw [lookLine_line hsize, hvalue, if_neg hpos]

/-- The data of a chunk. -/
theorem look_chunk_data (limit : Nat) (data rest : Bytes) :
    look limit (.data data.length) (data ++ crlf ++ rest) = .emit data rest := by
  show lookData _ _ = _
  unfold lookData
  rw [if_neg (by simp [crlf]), if_pos (by rw [append_assoc, drop_left]; rfl),
    append_assoc, take_left]
  rw [show data.length + 2 = (data ++ crlf).length by simp [crlf], ← append_assoc,
    drop_left]

section

variable {body : Bytes} (h : SeqOf body chunks)
include h

/-- On a body with chunks below the limit the decoder hands out its chunks and
    completes. -/
theorem SeqOf.reaches (hlimit : ∀ c ∈ chunks, c.length < limit)
    (tail : Bytes) : Reaches limit .line (body ++ tail) chunks .complete tail := by
  induction h with
  | last digits hsize hvalue =>
    have hfinal : look limit .final (crlf ++ tail) = .go .complete tail := rfl
    exact .go (look_last limit hsize hvalue tail) (.go hfinal (.refl _ _))
  | chunk digits data rest chunks hsize hvalue hdata _ ih =>
    rw [forall_mem_cons] at hlimit
    have hline := look_chunk limit hsize hvalue hdata rest tail
    rw [if_pos hlimit.1] at hline
    exact .go hline (.emit (look_chunk_data limit data _) (ih hlimit.2))

/-- On a body with chunks of any size the decoder hands out the first ones of
    them and halts. -/
theorem SeqOf.halts (tail : Bytes) :
    ∃ first more q t, chunks = first ++ more ∧ Reaches limit .line (body ++ tail) first q t ∧
      Halted limit q t ∧ (q = .complete → more = []) := by
  induction h with
  | last digits hsize hvalue =>
    refine ⟨[], [], .complete, tail, rfl, ?_, halted_complete tail, fun _ => rfl⟩
    exact (SeqOf.last digits hsize hvalue).reaches (by simp) tail
  | chunk digits data rest chunks hsize hvalue hdata _ ih =>
    have hline := look_chunk limit hsize hvalue hdata rest tail
    by_cases hlimit : data.length < limit
    · rw [if_pos hlimit] at hline
      obtain ⟨first, more, q, t, rfl, hreach, hhalt, hcomplete⟩ := ih
      exact ⟨data :: first, more, q, t, rfl, .go hline (.emit (look_chunk_data limit data _) hreach),
        hhalt, hcomplete⟩
    · -- the chunk is too large: the decoder stays before its line
      rw [if_neg hlimit] at hline
      exact ⟨[], data :: chunks, .line, _, rfl, .refl _ _, .inr ⟨_, hline⟩, nofun⟩

/-- The chunk lines the decoder comes to in a body are those of the body. -/
theorem SeqOf.line_reached (hreach : Reaches limit .line (body ++ tail) chunks' .line t) :
    ∃ body' more, t = body' ++ tail ∧ SeqOf body' more ∧ chunks = chunks' ++ more := by
  induction h generalizing chunks' with
  | last digits hsize hvalue =>
    have hline := look_last limit hsize hvalue tail
    cases hreach with
    | refl => exact ⟨_, [], rfl, .last digits hsize hvalue, rfl⟩
    | go hlook hrest =>
      -- behind the last line there is no other one
      obtain ⟨rfl, rfl⟩ := Look.go.inj (hlook.symm.trans hline)
      have hfinal : look limit .final (crlf ++ tail) = .go .complete tail := rfl
      cases hrest with
      | go hlook' hrest' =>
        obtain ⟨rfl, rfl⟩ := Look.go.inj (hlook'.symm.trans hfinal)
        cases ((halted_complete _).reaches hrest').2.1
      | emit hlook' _ => cases hlook'.symm.trans hfinal
    | emit hlook _ => cases hlook.symm.trans hline
  | chunk digits data rest chunks hsize hvalue hdata hseq ih =>
    have hline := look_chunk limit hsize hvalue hdata rest tail
    cases hreach with
    | refl => exact ⟨_, data :: chunks, rfl, .chunk digits data rest chunks hsize hvalue hdata hseq, rfl⟩
    | go hlook hrest =>
      rw [hlook] at hline
      split at hline
      · obtain ⟨rfl, rfl⟩ := Look.go.inj hline
        have hchunk := look_chunk_data limit data (rest ++ tail)
        cases hrest with
        | go hlook' _ => cases hlook'.symm.trans hchunk
        | emit hlook' hrest' =>
          obtain ⟨rfl, rfl⟩ := Look.emit.inj (hlook'.symm.trans hchunk)
          obtain ⟨body', more, rfl, hmore, rfl⟩ := ih hrest'
          exact ⟨body', more, rfl, hmore, rfl⟩
      · cases hline
    | emit hlook _ =>
      rw [hlook] at hline
      split at hline <;> cases hline

end

/-- What is between a place in the stream and the end of the body. -/
def Body (limit : Nat) (tail : Bytes) : Phase → Bytes → List Bytes → Prop
  | .line, s, chunks =>
      ∃ body, s = body ++ tail ∧ SeqOf body chunks ∧ ∀ c ∈ chunks, c.length < limit
  | .data n, s, chunks => n ≠ 0 → n < limit → ∃ data body more, data.length = n ∧
      s = data ++ crlf ++ (body ++ tail) ∧ chunks = data :: more ∧ SeqOf body more ∧
      ∀ c ∈ more, c.length < limit
  | .final, s, chunks => s = crlf ++ tail ∧ chunks = []
  | .complete, s, chunks => s = tail ∧ chunks = []

theorem Reaches.body (h : Reaches limit p s chunks .complete tail) :
    Body limit tail p s chunks := by
  generalize hq : Phase.complete = q at h
  induction h with
  | refl p s =>
    subst hq
    exact ⟨rfl, rfl⟩
  | @go p p' q s s' t chunks hlook hrest ih =>
    have hbody := ih hq
    cases p with
    | line =>
      obtain ⟨digits, hsize, rfl, ⟨hzero, rfl⟩ | ⟨hnz, hlt, rfl⟩⟩ := lookLine_go hlook
      · obtain ⟨rfl, rfl⟩ := hbody
        exact ⟨_, by rw [← append_assoc], .last digits hsize hzero, by simp⟩
      · obtain ⟨data, body, more, hlen, rfl, rfl, hseq, hmore⟩ := hbody hnz hlt
        have hdata : data ≠ [] := by
          intro hnil
          rw [hnil] at hlen
          exact hnz hlen.symm
        refine ⟨_, ?_, .chunk digits data body more hsize hlen.symm hdata hseq, ?_⟩
        · simp
        · rw [forall_mem_cons]
          exact ⟨by omega, hmore⟩
    | data n =>
      change lookData n s = _ at hlook
      unfold lookData at hlook
      split_ifs at hlook
    | final =>
      change lookFinal s = _ at hlook
      unfold lookFinal at hlook
      split_ifs at hlook with hlen hcrlf
      obtain ⟨rfl, rfl⟩ := Look.go.inj hlook
      obtain ⟨rfl, rfl⟩ := hbody
      refine ⟨?_, rfl⟩
      rw [← hcrlf, take_append_drop]
    | complete => cases hlook
  | @emit p q s s' t data chunks hlook hrest ih =>
    have hbody := ih hq
    cases p with
    | line => exact absurd hlook lookLine_not_emit
    | data n =>
      change lookData n s = _ at hlook
      unfold lookData at hlook
      split_ifs at hlook with hlen hcrlf
      obtain ⟨rfl, rfl⟩ := Look.emit.inj hlook
      obtain ⟨body, hs, hseq, hmore⟩ := hbody
      intro _ _
      refine ⟨s.take n, body, chunks, ?_, ?_, rfl, hseq, hmore⟩
      · rw [length_take]
        omega
      · rw [← hs, ← hcrlf, append_assoc]
        have hdrop : s.drop (n + 2) = (s.drop n).drop 2 := by rw [drop_drop]
        rw [hdrop, take_append_drop, take_append_drop]
    | final =>
      change lookFinal s = _ at hlook
      unfold lookFinal at hlook
      split_ifs at hlook
    | complete => cases hlook

/-- The reference decoder completes exactly the bodies with chunks below the
    limit. -/
theorem reaches_complete_iff :
    Reaches limit .line stream chunks .complete tail ↔
      ∃ body, stream = body ++ tail ∧ SeqOf body chunks ∧ ∀ c ∈ chunks, c.length < limit := by
  constructor
  · intro h
    exact h.body
  · intro h
    obtain ⟨body, rfl, hseq, hlimit⟩ := h
    exact hseq.reaches hlimit tail

end ChunkedCoding
