import Upsgi.Body.ChunkedRuns
import Upsgi.Body.Consecutive

/-! # Seeks in a request body

    A seek that returns 0 promises that the next read begins at the position
    that was asked for.  It keeps the promise for a body with a length, which
    post buffering has put in memory or in a file.  Of a chunked body nothing
    is kept: with post buffering a seek to the position 0 succeeds all the same
    and moves nothing.
-/

namespace Upsgi

open Framing
open ChunkedCoding hiding Bytes
open List

/-! ### Positions -/

/-- The number of bytes a read gave. -/
def ReadResult.size : ReadResult → Nat
  | .data bytes => bytes.length
  | .empty => 0
  | .fail => 0

/-- The number of bytes that reads gave together. -/
def delivered (results : List ReadResult) : Nat :=
  (results.map ReadResult.size).sum

theorem expectedRead_size (rest : Bytes) (hint : Nat) :
    (expectedRead rest hint).size = min hint rest.length := by
  unfold expectedRead
  split
  · next hnil =>
    rw [hnil, length_nil, Nat.min_zero]
    rfl
  · exact length_take

/-- Without a hint a read takes a page of a chunked body, and all of another
    one: it is the same as a read with some positive hint. -/
theorem upsgi_request_body_read_hint (cfg : BodyConfig) (head : Head) (hint : Nat) (env : ReadEnv)
    (st : BodyState) (hhint : hint < 2 ^ 63) (hlen : head.post_cl ≤ 2 ^ 63) :
    ∃ hint', 0 < hint' ∧ (head.body_is_chunked = false → hint' + head.post_cl ≤ 2 ^ 64) ∧
      upsgi_request_body_read cfg head hint env st =
        upsgi_request_body_read cfg head hint' env st := by
  by_cases hzero : hint = 0
  · subst hzero
    unfold upsgi_request_body_read
    cases hchunked : head.body_is_chunked with
    | true =>
      have hpage : cfg.page_size ≠ 0 := Nat.ne_of_gt cfg.page_size_pos
      refine ⟨cfg.page_size, cfg.page_size_pos, nofun, ?_⟩
      simp only [readChunked, hpage, ↓reduceIte]
    | false =>
      have hmax : max head.post_cl 1 ≠ 0 := by omega
      refine ⟨max head.post_cl 1, by omega, fun _ => by omega, ?_⟩
      simp only [hmax, Bool.false_eq_true, ↓reduceIte]
      by_cases hend : head.post_cl = 0 ∨ head.post_cl ≤ st.post_pos
      · simp only [if_pos hend]
      · rw [show max head.post_cl 1 = head.post_cl by omega]
  · exact ⟨hint, Nat.pos_of_ne_zero hzero, fun _ => by omega, rfl⟩

variable {cfg : BodyConfig} {head : Head} {st : BodyState} {rest body : Bytes} {pos : Int}
    {whence : Whence}

/-- Step: a read of any kind advances by what it gives. -/
theorem upsgi_request_body_read_advances {hint : Nat} (env : ReadEnv) (hhint : hint < 2 ^ 63)
    (hlen : head.post_cl ≤ 2 ^ 63) (h : ReadsFrom cfg head st rest)
    (hok : (upsgi_request_body_read cfg head hint env st).2 ≠ .fail) :
    (upsgi_request_body_read cfg head hint env st).2.size ≤ rest.length ∧
      ReadsFrom cfg head (upsgi_request_body_read cfg head hint env st).1
        (rest.drop (upsgi_request_body_read cfg head hint env st).2.size) := by
  obtain ⟨hint', hpos, hsum, heq⟩ := upsgi_request_body_read_hint cfg head hint env st hhint hlen
  rw [heq] at hok ⊢
  obtain ⟨hresult, hnext⟩ := upsgi_request_body_read_readsFrom env hpos hsum h hok
  rw [hresult, expectedRead_size]
  refine ⟨Nat.min_le_right _ _, ?_⟩
  rwa [← drop_eq_drop_min]

/-- Run: reads that do not fail stop behind what they gave. -/
theorem bodyReads_advances (reads : List (Nat × ReadEnv)) (hreads : ∀ read ∈ reads, read.1 < 2 ^ 63)
    (hlen : head.post_cl ≤ 2 ^ 63) (h : ReadsFrom cfg head st rest)
    (hok : .fail ∉ (bodyReads cfg head reads st).2) :
    delivered (bodyReads cfg head reads st).2 ≤ rest.length ∧
      ReadsFrom cfg head (bodyReads cfg head reads st).1
        (rest.drop (delivered (bodyReads cfg head reads st).2)) := by
  induction reads generalizing st rest with
  | nil => exact ⟨Nat.zero_le _, h⟩
  | cons read reads ih =>
    obtain ⟨hint, env⟩ := read
    rw [forall_mem_cons] at hreads
    have hstep := upsgi_request_body_read_advances env hreads.1 hlen h
    unfold bodyReads at hok ⊢
    generalize upsgi_request_body_read cfg head hint env st = out at hstep hok ⊢
    obtain ⟨st', result⟩ := out
    dsimp only at hstep hok ⊢
    rw [mem_cons, not_or] at hok
    obtain ⟨hsize, hnext⟩ := hstep (fun hfail => hok.1 hfail.symm)
    obtain ⟨hmore, hrest⟩ := ih hreads.2 hnext hok.2
    have hsum : delivered (result :: (bodyReads cfg head reads st').2) =
        result.size + delivered (bodyReads cfg head reads st').2 := sum_cons
    rw [length_drop] at hmore
    rw [hsum, ← drop_drop]
    exact ⟨by omega, hrest⟩

/-! ### Seeks in memory and in a file -/

/-- What post buffering has stored is all of `body`. -/
def Buffers (cfg : BodyConfig) (st : BodyState) (body : Bytes) : Prop :=
  match st.post_file with
  | some file => file.content = body
  | none => 0 < cfg.post_buffering → st.post_buffering_buf = body

/-- The position in the storage. -/
def storagePos (st : BodyState) : Nat :=
  match st.post_file with
  | some file => file.pos
  | none => st.post_pos

/-- A read does not change what is stored. -/
theorem upsgi_request_body_read_storage (cfg : BodyConfig) (head : Head) (hint : Nat) (env : ReadEnv)
    (st : BodyState) :
    (upsgi_request_body_read cfg head hint env st).1.post_buffering_buf = st.post_buffering_buf ∧
      (upsgi_request_body_read cfg head hint env st).1.post_file.map PostFile.content =
        st.post_file.map PostFile.content := by
  have hchunked : (readChunked cfg hint env st).1.post_buffering_buf = st.post_buffering_buf ∧
      (readChunked cfg hint env st).1.post_file.map PostFile.content =
        st.post_file.map PostFile.content := by
    unfold readChunked
    dsimp only
    generalize (if hint = 0 then cfg.page_size else hint) = remains
    split
    · exact ⟨rfl, rfl⟩
    · split <;> exact ⟨rfl, rfl⟩
  unfold upsgi_request_body_read
  split
  · exact hchunked
  · dsimp only
    generalize (if head.post_cl < ((if hint = 0 then head.post_cl else hint) + st.post_pos) % 2 ^ 64
      then head.post_cl - st.post_pos else if hint = 0 then head.post_cl else hint) = remains
    split
    · exact ⟨rfl, rfl⟩
    · split
      · exact ⟨rfl, rfl⟩
      · split
        · split
          · exact ⟨rfl, rfl⟩
          · split <;> exact ⟨rfl, rfl⟩
        · next file hfile =>
          split
          · exact ⟨rfl, rfl⟩
          · unfold readFile
            rw [hfile]
            split <;> exact ⟨rfl, rfl⟩

theorem bodyReads_storage (cfg : BodyConfig) (head : Head) (reads : List (Nat × ReadEnv))
    (st : BodyState) :
    (bodyReads cfg head reads st).1.post_buffering_buf = st.post_buffering_buf ∧
      (bodyReads cfg head reads st).1.post_file.map PostFile.content =
        st.post_file.map PostFile.content := by
  induction reads generalizing st with
  | nil => exact ⟨rfl, rfl⟩
  | cons read reads ih =>
    obtain ⟨hint, env⟩ := read
    obtain ⟨hbuf, hfile⟩ := upsgi_request_body_read_storage cfg head hint env st
    unfold bodyReads
    generalize upsgi_request_body_read cfg head hint env st = out at hbuf hfile ⊢
    obtain ⟨st', result⟩ := out
    obtain ⟨hbuf', hfile'⟩ := ih st'
    exact ⟨hbuf'.trans hbuf, hfile'.trans hfile⟩

theorem Buffers.reads (h : Buffers cfg st body) (head : Head) (reads : List (Nat × ReadEnv)) :
    Buffers cfg (bodyReads cfg head reads st).1 body := by
  obtain ⟨hbuf, hfile⟩ := bodyReads_storage cfg head reads st
  unfold Buffers at h ⊢
  cases hbefore : st.post_file with
  | none =>
    rw [hbefore] at h hfile
    cases hafter : (bodyReads cfg head reads st).1.post_file with
    | none =>
      rw [hbuf]
      exact h
    | some file =>
      rw [hafter] at hfile
      cases hfile
  | some file =>
    rw [hbefore] at h hfile
    cases hafter : (bodyReads cfg head reads st).1.post_file with
    | none =>
      rw [hafter] at hfile
      cases hfile
    | some file' =>
      rw [hafter] at hfile
      exact (Option.some.inj hfile).trans h

/-- A seek that succeeds moves the storage to the position that was asked for. -/
theorem seek_storedAt (hlen : body.length = head.post_cl) (h : Buffers cfg st body)
    (hseek : (upsgi_request_body_seek_do cfg head pos whence st).2 = 0) :
    ∃ n : Nat, seekTarget (storagePos st) body.length pos whence = n ∧
      StoredAt cfg head (upsgi_request_body_seek_do cfg head pos whence st).1 (body.drop n) := by
  unfold upsgi_request_body_seek_do at hseek ⊢
  unfold Buffers at h
  unfold storagePos
  cases hfile : st.post_file with
  | some file =>
    rw [hfile] at h hseek
    subst h
    dsimp only at hseek ⊢
    split at hseek
    · nomatch hseek
    · next htarget =>
      rw [if_neg htarget]
      exact ⟨(seekTarget file.pos file.content.length pos whence).toNat, by omega, hlen, rfl, rfl⟩
  | none =>
    rw [hfile] at h hseek
    dsimp only at hseek ⊢
    split at hseek
    · next hbuffering =>
      have hbuf := h hbuffering
      subst hbuf
      rw [hlen, if_pos hbuffering]
      split at hseek
      · nomatch hseek
      · next htarget =>
        rw [if_neg htarget]
        refine ⟨(seekTarget st.post_pos head.post_cl pos whence).toNat, by omega, ?_⟩
        unfold StoredAt
        rw [if_pos hbuffering]
        exact ⟨hlen, rfl⟩
    · nomatch hseek

/-- A read that does not wrap around stops at the end of the body. -/
theorem upsgi_request_body_read_pos_le {hint : Nat} (env : ReadEnv)
    (hplain : head.body_is_chunked = false) (hhint : hint < 2 ^ 63) (hlen : head.post_cl ≤ 2 ^ 63)
    (h : st.post_pos ≤ head.post_cl) :
    (upsgi_request_body_read cfg head hint env st).1.post_pos ≤ head.post_cl := by
  obtain ⟨hint', hpos, hsum, heq⟩ := upsgi_request_body_read_hint cfg head hint env st hhint hlen
  rw [heq]
  unfold upsgi_request_body_read
  rw [if_neg (by rw [hplain]; decide)]
  by_cases hend : head.post_cl = 0 ∨ head.post_cl ≤ st.post_pos
  · rw [if_pos hend]
    exact h
  · rw [if_neg hend]
    dsimp only
    rw [if_neg (show ¬ hint' = 0 by omega), read_remains (by omega) (hsum hplain)]
    generalize hn : min hint' (head.post_cl - st.post_pos) = n
    have hstop : st.post_pos + n ≤ head.post_cl := by omega
    split
    · exact h
    · split
      · split
        · exact hstop
        · split
          · exact h
          · -- the connection gives at most what is asked for
            have hspec := readAll_spec (fun n => Nat.le_refl (id n)) (fun _ => true) env.recvs st.conn n
            show st.post_pos + (readAll id (fun _ => true) env.recvs st.conn n).2.1.length ≤ _
            omega
      · split
        · exact h
        · unfold readFile
          split
          · exact h
          · exact hstop

theorem bodyReads_pos_le (reads : List (Nat × ReadEnv)) (hplain : head.body_is_chunked = false)
    (hreads : ∀ read ∈ reads, read.1 < 2 ^ 63) (hlen : head.post_cl ≤ 2 ^ 63)
    (h : st.post_pos ≤ head.post_cl) :
    (bodyReads cfg head reads st).1.post_pos ≤ head.post_cl := by
  induction reads generalizing st with
  | nil => exact h
  | cons read reads ih =>
    obtain ⟨hint, env⟩ := read
    rw [forall_mem_cons] at hreads
    exact ih hreads.2 (upsgi_request_body_read_pos_le env hplain hreads.1 hlen h)

/-- Where `n` bytes were given the storage is at the position `n`. -/
theorem StoredAt.storagePos_eq {n : Nat} (h : StoredAt cfg head st (body.drop n))
    (hlen : body.length = head.post_cl) (hbuffers : Buffers cfg st body)
    (hbuffering : st.post_file = none → 0 < cfg.post_buffering) (hn : n ≤ body.length)
    (hpos : st.post_pos ≤ head.post_cl) : storagePos st = n := by
  -- two tails of one length begin at one position
  have hsame : body.drop n = body.drop st.post_pos → st.post_pos = n := by
    intro heq
    have := congrArg List.length heq
    rw [length_drop, length_drop] at this
    omega
  unfold StoredAt at h
  unfold Buffers at hbuffers
  unfold storagePos
  cases hfile : st.post_file with
  | some file =>
    rw [hfile] at h hbuffers
    obtain ⟨_, hfilePos, heq⟩ := h
    have hcontent : file.content = body := hbuffers
    rw [hcontent] at heq
    exact hfilePos.trans (hsame heq)
  | none =>
    rw [hfile] at h hbuffers
    rw [if_pos (hbuffering hfile)] at h
    have hbuf : st.post_buffering_buf = body := hbuffers (hbuffering hfile)
    rw [hbuf] at h
    exact hsame h.2

/-- A seek needs post buffering or a file. -/
theorem seek_buffered (hseek : (upsgi_request_body_seek_do cfg head pos whence st).2 = 0) :
    st.post_file = none → 0 < cfg.post_buffering := by
  intro hfile
  unfold upsgi_request_body_seek_do at hseek
  rw [hfile] at hseek
  by_contra hzero
  rw [if_neg hzero] at hseek
  nomatch hseek

/-! ### Seeks in a chunked body -/

/-- Nothing keeps the decoder from delivering the rest of the body. -/
structure Unhindered (conn : Conn) (d : Decoder) : Prop where
  between : Between d
  roomy : d.Roomy
  completes : ∃ chunks t, Reaches sizeLimit d.phase (d.rest conn) chunks .complete t

/-- A call that does not fail leaves it so, and a call with reads enough does
    not fail. -/
theorem upsgi_chunked_read_unhindered (cfg : ChunkedConfig) (call : ChunkedCall) (conn : Conn)
    (chunked_input : Option Decoder)
    (h : Unhindered conn (chunked_input.getD (Decoder.new cfg))) :
    ((upsgi_chunked_read cfg call conn chunked_input).2.2 ≠ .fail →
      Unhindered (upsgi_chunked_read cfg call conn chunked_input).1
        (upsgi_chunked_read cfg call conn chunked_input).2.1) ∧
    (call.Plenty conn.incoming.length →
      (upsgi_chunked_read cfg call conn chunked_input).2.2 ≠ .fail ∧
        (upsgi_chunked_read cfg call conn chunked_input).1.incoming.length ≤
          conn.incoming.length) := by
  obtain ⟨chunks, t, hreach⟩ := h.completes
  have hgives := upsgi_chunked_read_gives cfg call conn chunked_input rfl h.between
    (readableFrom_of_complete hreach)
  have hroomy := upsgi_chunked_read_roomy cfg call conn chunked_input h.roomy
  have hexhausts : call.Plenty conn.incoming.length →
      Exhausts conn (upsgi_chunked_read cfg call conn chunked_input) := fun hplenty =>
    upsgi_chunked_read_exhausts cfg rfl h.roomy h.between.held hplenty
  generalize upsgi_chunked_read cfg call conn chunked_input = out at hgives hroomy hexhausts ⊢
  obtain ⟨conn', d', result⟩ := out
  constructor
  · intro hok
    cases result with
    | chunk data =>
      obtain ⟨_, _, hstep, hbetween⟩ := hgives
      obtain ⟨more, _, hmore⟩ := hstep.factor hreach (halted_complete t)
      exact ⟨hbetween, hroomy, more, t, hmore⟩
    | finished =>
      obtain ⟨hdone, _, hbetween⟩ := hgives
      refine ⟨hbetween, hroomy, [], d'.rest conn', ?_⟩
      rw [show d'.phase = .complete from if_pos hdone]
      exact .refl _ _
    | fail => nomatch hok
  · intro hplenty
    refine ⟨?_, (hexhausts hplenty).read⟩
    intro hfail
    subst hfail
    rcases hgives with ⟨_, q, t', hstep, hlook⟩ | ⟨hopen, hincomplete, _, hstep, hstuck⟩
    · -- a refused stream does not come to its end
      obtain ⟨_, rfl, rfl⟩ := hstep.unique hreach (.inr ⟨_, hlook⟩) (halted_complete t)
      cases hlook
    · -- nor does one that is read to its end
      have hend := (hexhausts hplenty).starved rfl hopen
      obtain ⟨_, hphase, _⟩ := hstep.unique hreach (.inl (hstuck hend)) (halted_complete t)
      exact Decoder.phase_ne_complete hincomplete hphase

/-- The same for the loop over chunks. -/
theorem smartLoop_unhindered (cfg : ChunkedConfig) (calls : Nat → ChunkedCall) (room : Nat → Bool)
    (ret : Bytes) (rounds : Nat) :
    ∀ (remains : Nat) (conn : Conn) (chunked_input : Option Decoder) (buf : Bytes),
      Unhindered conn (chunked_input.getD (Decoder.new cfg)) →
      let out := smartLoop cfg calls room ret rounds remains conn chunked_input buf
      (out.2.2.2 ≠ none → Unhindered out.1 (out.2.1.getD (Decoder.new cfg))) ∧
      ∀ n, (∀ i, (calls i).Plenty n) → (∀ i, room i = true) → conn.incoming.length ≤ n →
        out.2.2.2 ≠ none ∧ out.1.incoming.length ≤ n := by
  induction rounds with
  | zero =>
    intro remains conn chunked_input buf h
    exact ⟨fun _ => h, fun n _ _ hn => ⟨Option.some_ne_none _, hn⟩⟩
  | succ rounds ih =>
    intro remains conn chunked_input buf h
    unfold smartLoop
    split
    · exact ⟨fun _ => h, fun n _ _ hn => ⟨Option.some_ne_none _, hn⟩⟩
    · obtain ⟨hkeeps, hgoes⟩ := upsgi_chunked_read_unhindered cfg (calls rounds) conn chunked_input h
      generalize upsgi_chunked_read cfg (calls rounds) conn chunked_input = out at hkeeps hgoes ⊢
      obtain ⟨conn', d', result⟩ := out
      cases result with
      | fail =>
        refine ⟨fun h => absurd rfl h, ?_⟩
        intro n hplenty _ hn
        exact absurd rfl (hgoes ((hplenty rounds).mono hn)).1
      | finished =>
        refine ⟨fun _ => hkeeps (by simp), ?_⟩
        intro n hplenty _ hn
        exact ⟨Option.some_ne_none _, Nat.le_trans (hgoes ((hplenty rounds).mono hn)).2 hn⟩
      | chunk data =>
        have hnext := hkeeps (by simp)
        dsimp only
        split
        · next hfull =>
          refine ⟨fun h => absurd rfl h, ?_⟩
          intro n _ hroom _
          cases hfull.symm.trans (hroom rounds)
        · split
          · refine ⟨fun _ => hnext, ?_⟩
            intro n hplenty _ hn
            exact ⟨Option.some_ne_none _,
              Nat.le_trans (hgoes ((hplenty rounds).mono hn)).2 hn⟩
          · obtain ⟨hkept, hmore⟩ := ih (remains - data.length) conn' (some d') (buf ++ data) hnext
            refine ⟨hkept, ?_⟩
            intro n hplenty hroom hn
            exact hmore n hplenty hroom (Nat.le_trans (hgoes ((hplenty rounds).mono hn)).2 hn)

/-- The decoder of the request is unhindered. -/
def Flows (cfg : BodyConfig) (st : BodyState) : Prop :=
  Unhindered st.conn (st.chunked_input.getD (Decoder.new cfg.toChunkedConfig))

/-- An environment in which each byte arrives, as long as there are at most `n`. -/
def arriving (n : Nat) : ReadEnv where
  alloc := true
  fread := true
  recvs := []
  calls := fun _ => ⟨[], List.replicate (n + 1) (recvUpTo 1)⟩
  room := fun _ => true

theorem arriving_plenty (n i : Nat) : ((arriving n).calls i).Plenty n := by
  refine ⟨?_, ?_⟩
  · show n < (List.replicate (n + 1) (recvUpTo 1)).length
    rw [length_replicate]
    exact Nat.lt_succ_self n
  · intro recv hrecv
    rw [eq_of_mem_replicate hrecv]
    exact ⟨by decide, by decide, rfl⟩

theorem readChunked_flows (h : Flows cfg st) (hint : Nat) (env : ReadEnv) :
    ((readChunked cfg hint env st).2 ≠ .fail → Flows cfg (readChunked cfg hint env st).1) ∧
    ∀ n, env = arriving n → 0 < hint → hint < 2 ^ 63 → st.conn.incoming.length ≤ n →
      (readChunked cfg hint env st).2 ≠ .fail ∧
        (readChunked cfg hint env st).1.conn.incoming.length ≤ n := by
  have hsmart : ∀ remains,
      let out := upsgi_chunked_read_smart cfg.toChunkedConfig env.calls env.room remains st.conn
        st.chunked_input st.body_chunked_buf
      (out.2.2.2 ≠ none →
        Unhindered out.1 (out.2.1.getD (Decoder.new cfg.toChunkedConfig))) ∧
      ∀ n, env = arriving n → st.conn.incoming.length ≤ n →
        out.2.2.2 ≠ none ∧ out.1.incoming.length ≤ n := by
    intro remains
    unfold upsgi_chunked_read_smart
    split
    · exact ⟨fun _ => h, fun n _ hn => ⟨nofun, hn⟩⟩
    · obtain ⟨hkeeps, hgoes⟩ := smartLoop_unhindered cfg.toChunkedConfig env.calls env.room
        st.body_chunked_buf (remains - st.body_chunked_buf.length)
        (remains - st.body_chunked_buf.length) st.conn st.chunked_input [] h
      refine ⟨hkeeps, ?_⟩
      intro n henv hn
      subst henv
      exact hgoes n (arriving_plenty n) (fun _ => rfl) hn
  unfold readChunked
  dsimp only
  generalize hremains : (if hint = 0 then cfg.page_size else hint) = remains
  split
  · next hholds =>
    refine ⟨nofun, ?_⟩
    intro n henv hpos hlt _
    rw [if_neg (by omega)] at hremains
    subst henv
    subst hremains
    have hroom : (arriving n).holds hint = true := decide_eq_true hlt
    nomatch hholds.symm.trans hroom
  · obtain ⟨hkeeps, hgoes⟩ := hsmart remains
    generalize upsgi_chunked_read_smart cfg.toChunkedConfig env.calls env.room remains st.conn
      st.chunked_input st.body_chunked_buf = out at hkeeps hgoes ⊢
    obtain ⟨conn, d, buf, ret⟩ := out
    cases ret with
    | none =>
      refine ⟨nofun, ?_⟩
      intro n henv _ _ hn
      exact absurd rfl (hgoes n henv hn).1
    | some data =>
      have hflows := hkeeps nofun
      cases data with
      | nil | cons c data =>
        refine ⟨fun _ => hflows, ?_⟩
        intro n henv _ _ hn
        exact ⟨nofun, (hgoes n henv hn).2⟩

theorem bodyReads_flows (hchunked : head.body_is_chunked = true) (reads : List (Nat × ReadEnv))
    (h : Flows cfg st) (hok : .fail ∉ (bodyReads cfg head reads st).2) : Flows cfg (bodyReads cfg head reads st).1 := by
  induction reads generalizing st with
  | nil => exact h
  | cons read reads ih =>
    obtain ⟨hint, env⟩ := read
    have hstep := (readChunked_flows h hint env).1
    unfold bodyReads at hok ⊢
    rw [upsgi_request_body_read, if_pos hchunked] at hok ⊢
    rw [mem_cons, not_or] at hok
    exact ih (hstep (fun hfail => hok.1 hfail.symm)) hok.2

/-- Byte for byte the whole rest of the body can be read. -/
theorem bodyReads_arriving (hchunked : head.body_is_chunked = true) (k n : Nat) (h : Flows cfg st)
    (hn : st.conn.incoming.length ≤ n) :
    .fail ∉ (bodyReads cfg head (List.replicate k (1, arriving n)) st).2 := by
  induction k generalizing st with
  | zero =>
    nofun
  | succ k ih =>
    obtain ⟨hkeeps, hgoes⟩ := readChunked_flows h 1 (arriving n)
    obtain ⟨hok, hfew⟩ := hgoes n rfl (by decide) (by decide) hn
    rw [replicate_succ]
    unfold bodyReads
    rw [upsgi_request_body_read, if_pos hchunked]
    rw [mem_cons, not_or]
    exact ⟨fun hfail => hok hfail.symm, ih (hkeeps hok) hfew⟩

/-- Reads of one byte tell two bodies apart. -/
theorem expectedReads_injective (k : Nat) {rest' : Bytes} (hlen : rest.length ≤ k)
    (hlen' : rest'.length ≤ k)
    (h : expectedReads rest (List.replicate k 1) = expectedReads rest' (List.replicate k 1)) :
    rest = rest' := by
  induction k generalizing rest rest' with
  | zero =>
    rw [eq_nil_of_length_eq_zero (Nat.le_zero.mp hlen),
      eq_nil_of_length_eq_zero (Nat.le_zero.mp hlen')]
  | succ k ih =>
    obtain ⟨hfirst, hmore⟩ := List.cons.inj h
    cases rest with
    | nil =>
      cases rest' with
      | nil => rfl
      | cons c' rest' => cases hfirst
    | cons c rest =>
      cases rest' with
      | nil => cases hfirst
      | cons c' rest' =>
        have hc : [c] = [c'] := ReadResult.data.inj hfirst
        rw [length_cons] at hlen hlen'
        have hrest : rest = rest' := ih (by omega) (by omega) hmore
        rw [(List.cons.inj hc).1, hrest]

/-- Reads of a chunked body leave `post_pos` alone. -/
theorem bodyReads_chunked_pos (hchunked : head.body_is_chunked = true)
    (reads : List (Nat × ReadEnv)) (st : BodyState) :
    (bodyReads cfg head reads st).1.post_pos = st.post_pos := by
  have hstep : ∀ hint env (st : BodyState), (readChunked cfg hint env st).1.post_pos = st.post_pos := by
    intro hint env st
    unfold readChunked
    dsimp only
    generalize (if hint = 0 then cfg.page_size else hint) = remains
    split
    · rfl
    · split <;> rfl
  induction reads generalizing st with
  | nil => rfl
  | cons read reads ih =>
    obtain ⟨hint, env⟩ := read
    unfold bodyReads
    rw [upsgi_request_body_read, if_pos hchunked]
    exact (ih _).trans (hstep hint env st)

theorem startBody_post_file (hlen : head.post_cl = 0) (alloc : Bool) (recvs : List Recv)
    (conn : Conn) : (startBody cfg head alloc recvs conn).post_file = none := by
  unfold startBody
  split
  · rfl
  · rw [if_neg (by omega)]
    unfold upsgi_postbuffer_do_in_mem
    split <;> rfl

/-- A seek in a chunked body succeeds at the position 0 of a body of length 0, and
    changes nothing. -/
theorem seek_chunked (hlen : head.post_cl = 0) (hfile : st.post_file = none)
    (hpos : st.post_pos = 0) (hseek : (upsgi_request_body_seek_do cfg head pos whence st).2 = 0) :
    seekTarget 0 0 pos whence = 0 ∧ (upsgi_request_body_seek_do cfg head pos whence st).1 = st := by
  have hbuffering := seek_buffered hseek hfile
  unfold upsgi_request_body_seek_do at hseek ⊢
  rw [hfile] at hseek ⊢
  dsimp only at hseek ⊢
  rw [if_pos hbuffering, hpos, hlen] at hseek ⊢
  split at hseek
  · nomatch hseek
  · next htarget =>
    have hzero : seekTarget 0 0 pos whence = 0 := by
      omega
    rw [if_neg htarget, hzero]
    refine ⟨rfl, ?_⟩
    cases st
    cases hpos
    cases hfile
    rfl

/-! ### What a seek promises -/

/-- Reads give the body from the position that was asked for. -/
def FollowsSeek (cfg : BodyConfig) (head : Head) (body : Bytes) (asked : Int) (st : BodyState) : Prop :=
  ∃ n : Nat, asked = n ∧ ∀ reads : List (Nat × ReadEnv),
    (∀ read ∈ reads, 0 < read.1 ∧ read.1 < 2 ^ 63) → .fail ∉ (bodyReads cfg head reads st).2 →
      (bodyReads cfg head reads st).2 = expectedReads (body.drop n) (reads.map Prod.fst)

theorem ReadsFrom.followsSeek {n : Nat} (h : ReadsFrom cfg head st (body.drop n))
    (hlen : head.post_cl ≤ 2 ^ 63) :
    FollowsSeek cfg head body n st := by
  refine ⟨n, rfl, ?_⟩
  intro reads hreads hok
  refine bodyReads_readsFrom reads (fun read hread => (hreads read hread).1) ?_ h hok
  intro read hread
  have := (hreads read hread).2
  omega

/-- What has to hold before a seek: a chunked body is where the seek wants it,
    and a seek from the current position does not come after a read that
    failed. -/
def SeekKept (head : Head) (results : List ReadResult) (asked : Int) (whence : Whence) : Prop :=
  if head.body_is_chunked then .fail ∉ results ∧ asked = delivered results
  else whence = .cur → .fail ∉ results

/-- A body with a length. -/
theorem seek_follows_stored {st₀ : BodyState} {history : List (Nat × ReadEnv)}
    (hplain : head.body_is_chunked = false) (hlen : head.post_cl ≤ 2 ^ 63)
    (hhistory : ∀ read ∈ history, read.1 < 2 ^ 63) (hstart : st₀.post_pos = 0)
    (hstored : StoredAt cfg head st₀ body)
    (hseek : (upsgi_request_body_seek_do cfg head pos whence (bodyReads cfg head history st₀).1).2 = 0)
    (hcur : whence = .cur → .fail ∉ (bodyReads cfg head history st₀).2) :
    FollowsSeek cfg head body
      (seekTarget (delivered (bodyReads cfg head history st₀).2) body.length pos whence)
      (upsgi_request_body_seek_do cfg head pos whence (bodyReads cfg head history st₀).1).1 := by
  have hbuffering : st₀.post_file = none → 0 < cfg.post_buffering := by
    intro hnone
    have hstorage := (bodyReads_storage cfg head history st₀).2
    rw [hnone] at hstorage
    exact seek_buffered hseek (Option.map_eq_none_iff.mp hstorage)
  -- the whole body is stored
  obtain ⟨hbuffers, hbody⟩ : Buffers cfg st₀ body ∧ body.length = head.post_cl := by
    unfold StoredAt at hstored
    unfold Buffers
    cases hfile : st₀.post_file with
    | some file =>
      rw [hfile] at hstored
      obtain ⟨hcontent, _, heq⟩ := hstored
      rw [hstart, drop_zero] at heq
      exact ⟨heq.symm, by rw [heq, hcontent]⟩
    | none =>
      rw [hfile] at hstored
      rw [if_pos (hbuffering hfile), hstart, drop_zero] at hstored
      exact ⟨fun _ => hstored.2.symm, by rw [hstored.2, hstored.1]⟩
  have hafter := hbuffers.reads head history
  obtain ⟨n, htarget, hmoved⟩ := seek_storedAt hbody hafter hseek
  -- the current position is what was given so far
  have hsame : seekTarget (delivered (bodyReads cfg head history st₀).2) body.length pos whence =
      seekTarget (storagePos (bodyReads cfg head history st₀).1) body.length pos whence := by
    by_cases hwhence : whence = .cur
    · have hreadsFrom : ReadsFrom cfg head st₀ body := by
        unfold ReadsFrom
        rw [if_neg (by rw [hplain]; decide)]
        exact hstored
      obtain ⟨hle, hstop⟩ := bodyReads_advances history hhistory hlen hreadsFrom (hcur hwhence)
      unfold ReadsFrom at hstop
      rw [if_neg (by rw [hplain]; decide)] at hstop
      have hpos : (bodyReads cfg head history st₀).1.post_pos ≤ head.post_cl :=
        bodyReads_pos_le history hplain hhistory hlen (by omega)
      rw [hstop.storagePos_eq hbody hafter (seek_buffered hseek) hle hpos]
    · cases whence with
      | set | end_ | other => rfl
      | cur => nomatch hwhence
  rw [hsame, htarget]
  apply ReadsFrom.followsSeek _ hlen
  unfold ReadsFrom
  rw [if_neg (by rw [hplain]; decide)]
  exact hmoved

/-- A chunked body, which a seek leaves where it is. -/
theorem seek_follows_chunked {position : Nat} (hchunked : head.body_is_chunked = true)
    (hlen : head.post_cl = 0) (hfile : st.post_file = none) (hpos : st.post_pos = 0)
    (hreads : ReadsFrom cfg head st (body.drop position)) (hposition : position ≤ body.length)
    (hseek : (upsgi_request_body_seek_do cfg head pos whence st).2 = 0) :
    (seekTarget position body.length pos whence = position →
      FollowsSeek cfg head body (seekTarget position body.length pos whence)
        (upsgi_request_body_seek_do cfg head pos whence st).1) ∧
    (Flows cfg st →
      FollowsSeek cfg head body (seekTarget position body.length pos whence)
        (upsgi_request_body_seek_do cfg head pos whence st).1 →
      seekTarget position body.length pos whence = position) := by
  obtain ⟨htarget, hsame⟩ := seek_chunked hlen hfile hpos hseek
  rw [hsame]
  constructor
  · intro hkept
    rw [hkept]
    exact hreads.followsSeek (by omega)
  · intro hflows hfollows
    obtain ⟨n, hasked, hall⟩ := hfollows
    -- the seek asked for the beginning, the current position or the end
    have hn : n ≤ body.length := by
      cases whence with
      | set =>
        have hzero : pos = 0 := htarget
        have hn : pos = (n : Int) := hasked
        omega
      | cur =>
        have hzero : ((0 : Nat) : Int) + pos = 0 := htarget
        have hn : (position : Int) + pos = (n : Int) := hasked
        omega
      | end_ =>
        have hzero : ((0 : Nat) : Int) + pos = 0 := htarget
        have hn : (body.length : Int) + pos = (n : Int) := hasked
        omega
      | other => nomatch htarget
    -- reads of single bytes show where the body is
    have hok := bodyReads_arriving hchunked body.length st.conn.incoming.length hflows le_rfl
    have hsingle : ∀ read ∈ List.replicate body.length (1, arriving st.conn.incoming.length),
        read.1 = 1 := by
      intro read hread
      rw [eq_of_mem_replicate hread]
    have hasked' := hall _ (fun read hread => by rw [hsingle read hread]; decide) hok
    have hreal := bodyReads_readsFrom _ (fun read hread => by rw [hsingle read hread]; decide)
      (fun read hread => by rw [hsingle read hread, hlen]; decide) hreads hok
    rw [hasked', map_replicate] at hreal
    have hdrop := expectedReads_injective body.length (by rw [length_drop]; omega)
      (by rw [length_drop]; omega) hreal
    have := congrArg List.length hdrop
    rw [length_drop, length_drop] at this
    omega

/-- A seek that returns 0 is followed by reads from the position that was asked
    for, unless it is in a chunked body that is elsewhere, or from the current
    position after a read that failed.  A chunked body whose chunks the decoder
    takes is read from elsewhere in every such case.  And without post buffering
    no seek returns 0. -/
theorem body_seek_follows {cfg : BodyConfig} {head : Head} {alloc : Bool} {recvs : List Recv}
    {conn : Conn} {chunks : List Bytes} {history : List (Nat × ReadEnv)} {pos : Int}
    {whence : Whence} {st : BodyState} {results : List ReadResult}
    (hbody : CarriesChunks head conn.incoming chunks)
    (hsizes : head.body_is_chunked = true → ∀ data ∈ chunks, data.length ≠ 2 ^ 64 - 2)
    (hlen : head.post_cl ≤ 2 ^ 63)
    (hstart : (startBody cfg head alloc recvs conn).aborted = false)
    (hhistory : ∀ read ∈ history, read.1 < 2 ^ 63)
    (hreads : bodyReads cfg head history (startBody cfg head alloc recvs conn) = (st, results))
    (hseek : (upsgi_request_body_seek_do cfg head pos whence st).2 = 0) :
    0 < cfg.post_buffering ∧
    (SeekKept head results (seekTarget (delivered results) chunks.flatten.length pos whence) whence →
      FollowsSeek cfg head chunks.flatten
        (seekTarget (delivered results) chunks.flatten.length pos whence)
        (upsgi_request_body_seek_do cfg head pos whence st).1) ∧
    (head.body_is_chunked = true → .fail ∉ results → cfg.chunked_input_limit = 0 →
      (∀ data ∈ chunks, data.length < 2 ^ 63) →
      FollowsSeek cfg head chunks.flatten
        (seekTarget (delivered results) chunks.flatten.length pos whence)
        (upsgi_request_body_seek_do cfg head pos whence st).1 →
      seekTarget (delivered results) chunks.flatten.length pos whence = delivered results) := by
  have hst : st = (bodyReads cfg head history (startBody cfg head alloc recvs conn)).1 := by
    rw [hreads]
  have hresults : results = (bodyReads cfg head history (startBody cfg head alloc recvs conn)).2 := by
    rw [hreads]
  have hstorage := (bodyReads_storage cfg head history (startBody cfg head alloc recvs conn)).2
  have hbegin := startBody_readsFrom hbody hsizes hstart
  have hundelivered := startBody_undelivered cfg head alloc recvs conn
  refine ⟨?_, ?_⟩
  · -- without post buffering there is no file either
    by_contra hzero
    have hfresh : startBody cfg head alloc recvs conn = .fresh conn := if_pos (by omega)
    rw [hfresh] at hstorage hst
    exact hzero (seek_buffered hseek (by rw [hst]; exact Option.map_eq_none_iff.mp hstorage))
  · cases hchunked : head.body_is_chunked with
    | false =>
      refine ⟨?_, nofun⟩
      intro hkept
      unfold SeekKept at hkept
      rw [if_neg (by rw [hchunked]; decide)] at hkept
      unfold ReadsFrom at hbegin
      rw [if_neg (by rw [hchunked]; decide)] at hbegin
      subst hst hresults
      exact seek_follows_stored hchunked hlen hhistory hundelivered.2 hbegin hseek hkept
    | true =>
      obtain ⟨hzero, body, tail, hstream, hseq⟩ := (if_pos hchunked).mp hbody
      rw [startBody_post_file hzero] at hstorage
      have hfile : st.post_file = none := by
        rw [hst]
        exact Option.map_eq_none_iff.mp hstorage
      have hpos : st.post_pos = 0 := by
        rw [hst, bodyReads_chunked_pos hchunked, hundelivered.2]
      have hafter : .fail ∉ results → delivered results ≤ chunks.flatten.length ∧
          ReadsFrom cfg head st (chunks.flatten.drop (delivered results)) := by
        rw [hresults, hst]
        exact bodyReads_advances history hhistory hlen hbegin
      constructor
      · intro hkept
        unfold SeekKept at hkept
        rw [if_pos hchunked] at hkept
        obtain ⟨hle, hreadsFrom⟩ := hafter hkept.1
        exact (seek_follows_chunked hchunked hzero hfile hpos hreadsFrom hle hseek).1 hkept.2
      · intro _ hok hlimit hsmall
        obtain ⟨hle, hreadsFrom⟩ := hafter hok
        refine (seek_follows_chunked hchunked hzero hfile hpos hreadsFrom hle hseek).2 ?_
        rw [hst]
        apply bodyReads_flows hchunked history _ (hresults ▸ hok)
        obtain ⟨hconn, hnew, _, _⟩ : SameConnection (.fresh conn)
            (startBody cfg head alloc recvs conn) := startBody_chunked hzero alloc recvs conn
        unfold Flows
        rw [hconn, hnew]
        refine ⟨between_new cfg.toChunkedConfig, ⟨hlimit, Nat.zero_le _⟩, chunks, tail, ?_⟩
        show Reaches sizeLimit .line conn.incoming chunks .complete tail
        rw [hstream]
        exact hseq.reaches hsmall tail

/-- Post buffering in memory for bodies of fewer than 64 bytes. -/
def bufferingConfig : BodyConfig :=
  { smallConfig with post_buffering := 64 }

/-- A body of three bytes. -/
def lengthHead : Head :=
  { chunkedHead with post_cl := 3, body_is_chunked := false }

/-- The request whose body `abc` was buffered byte by byte and read up to the `c`. -/
def readBack : BodyState × List ReadResult :=
  bodyReads bufferingConfig lengthHead [readPair]
    (startBody bufferingConfig lengthHead true (List.replicate 3 ⟨8, 1, true, []⟩)
      ⟨[], lit "abcGET"⟩)

/-- The `b` is read again. -/
theorem body_seek_follows_back :
    FollowsSeek bufferingConfig lengthHead (lit "abc") 1
      (upsgi_request_body_seek_do bufferingConfig lengthHead (-1) .cur readBack.1).1 := by
  have hresults : readBack.2 = [.data (lit "ab")] := by decide +kernel
  have hseek : (upsgi_request_body_seek_do bufferingConfig lengthHead (-1) .cur readBack.1).2 = 0 := by
    decide +kernel
  have hbody : CarriesChunks lengthHead (Conn.mk [] (lit "abcGET")).incoming [lit "abc"] := by
    show [lit "abc"] = _
    decide
  have hreads : bodyReads bufferingConfig lengthHead [readPair]
      (startBody bufferingConfig lengthHead true (List.replicate 3 ⟨8, 1, true, []⟩)
        ⟨[], lit "abcGET"⟩) = (readBack.1, [.data (lit "ab")]) := Prod.ext rfl hresults
  exact (body_seek_follows hbody nofun (by decide) rfl (by simp [readPair]) hreads
    hseek).2.1 (fun _ => by decide)

/-- Two bytes are read of a chunked body; a seek to its beginning returns 0, and
    the next read goes on with the third byte. -/
theorem body_seek_chunked_stays :
    let st := (bodyReads bufferingConfig chunkedHead [readPair]
      (startBody bufferingConfig chunkedHead true [] ⟨[], chunkedStream⟩)).1
    let sought := upsgi_request_body_seek_do bufferingConfig chunkedHead 0 .set st
    CarriesChunks chunkedHead chunkedStream [lit "abc"] ∧ sought.2 = 0 ∧
      (bodyReads bufferingConfig chunkedHead [readPair] sought.1).2 = [.data (lit "c")] ∧
      expectedReads ((lit "abc").drop 0) [2] = [.data (lit "ab")] := by
  have hlast : SeqOf (lit "0\r\n\r\n") [] :=
    .last [48] ⟨by decide, by simp; decide⟩ (by decide)
  refine ⟨⟨rfl, lit "3\r\nabc\r\n0\r\n\r\n", lit "GET", by decide, ?_⟩, ?_, ?_, ?_⟩
  · exact .chunk [51] (lit "abc") _ [] ⟨by decide, by simp; decide⟩ (by decide) (by decide) hlast
  · decide +kernel
  · decide +kernel
  · decide

end Upsgi
