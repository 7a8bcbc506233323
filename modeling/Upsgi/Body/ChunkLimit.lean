import Upsgi.Body.ChunkedRuns

/-! # The limit of the chunk buffer

    Before each read `upsgi_chunked_read` asks for room for a page, or for what is
    missing of a chunk if that is more.  `upsgi_buffer_ensure` stops at the limit:
    the first request that goes beyond it gets what there is up to the limit, and
    every later one is refused, although there may be room enough for the bytes
    that are missing.  So it is not the length of a chunk that counts but how
    often a read starts with less than a page left.
-/

namespace Upsgi

open Framing
open ChunkedCoding hiding Bytes
open List

/-! ### The reads of a run -/

/-- The decoder with a new buffer, for any limit: also for one below the page
    size. -/
def Decoder.limited (page_size limit : Nat) : Decoder where
  buf := ⟨[], page_size, limit⟩
  status := .line
  chunk_len := 0
  need := 0
  complete := false
  decapitate := 0

/-- The states in which the rounds of `chunkedLoop` begin with a read. -/
def loopReads (cfg : ChunkedConfig) : List Recv → Conn → Decoder → List Decoder
  | [], _, _ => []
  | recv :: recvs, conn, d =>
      match upsgi_buffer_ensure d.buf (max cfg.page_size d.need) recv.room with
      | none => [d]
      | some buf =>
          let (conn, got) := readBody conn (buf.len - buf.data.length) recv
          if got = [] then [d]
          else
            let e := Decoder.received { d with buf := buf } got
            if 0 < e.need then d :: loopReads cfg recvs conn e
            else
              match chunkedParse recv.beyond e with
              | (_, some _) => [d]
              | (e, none) => d :: loopReads cfg recvs conn e

/-- The states in which a call of `upsgi_chunked_read` reads. -/
def callReads (cfg : ChunkedConfig) (call : ChunkedCall) (conn : Conn) (d : Decoder) : List Decoder :=
  if d.complete then []
  else if d.buf.data.length < d.decapitate then []
  else if 0 < d.emptied.need ∨ d.emptied.buf.data = [] then
    loopReads cfg call.recvs conn d.emptied
  else
    match chunkedParse call.beyond d.emptied with
    | (_, some _) => []
    | (d, none) => loopReads cfg call.recvs conn d

/-- The states in which calls one after another read. -/
def chunkedReads (cfg : ChunkedConfig) : List ChunkedCall → Conn → Decoder → List Decoder
  | [], _, _ => []
  | call :: calls, conn, d =>
      let out := upsgi_chunked_read cfg call conn (some d)
      callReads cfg call conn d ++ chunkedReads cfg calls out.1 out.2.1

/-! ### What the limit allows -/

/-- With memory enough the buffer gets room for the read.  A limit below the page
    size may make it smaller than its content. -/
def LimitAllows (page_size : Nat) (d : Decoder) : Prop :=
  ∃ buf, upsgi_buffer_ensure d.buf (max page_size d.need) true = some buf ∧
    d.buf.data.length < buf.len

/-- Where the buffer would have to end for a read. -/
def Decoder.reach (page_size : Nat) (d : Decoder) : Nat :=
  d.buf.data.length + max page_size d.need

/-- The buffer has the size of the limit after these reads. -/
def AtLimit (page_size limit : Nat) (before : List Decoder) : Prop :=
  page_size = limit ∨ ∃ e ∈ before, page_size < e.reach page_size ∧ limit ≤ e.reach page_size

/-- A read after others: it does not go beyond the limit, or it is the first one
    that the limit cuts short, and it has a byte of room left. -/
def FitsAfter (page_size limit : Nat) (before : List Decoder) (d : Decoder) : Prop :=
  0 < limit → limit < d.reach page_size →
    ¬ AtLimit page_size limit before ∧
      (d.buf.data.length < limit ∨ d.reach page_size ≤ page_size)

/-- The same for all reads that follow. -/
def FitLimit (page_size limit : Nat) : List Decoder → List Decoder → Prop
  | _, [] => True
  | before, d :: reads =>
      FitsAfter page_size limit before d ∧ FitLimit page_size limit (before ++ [d]) reads

instance (page_size : Nat) (d : Decoder) : Decidable (LimitAllows page_size d) :=
  inferInstanceAs (Decidable (∃ buf ∈ upsgi_buffer_ensure d.buf (max page_size d.need) true, _))

instance (page_size limit : Nat) (before : List Decoder) : Decidable (AtLimit page_size limit before) :=
  inferInstanceAs (Decidable (_ ∨ ∃ e ∈ before, _))

instance (page_size limit : Nat) (before : List Decoder) (d : Decoder) :
    Decidable (FitsAfter page_size limit before d) :=
  inferInstanceAs (Decidable (0 < limit → limit < d.reach page_size → _ ∧ _))

instance decidableFitLimit (page_size limit : Nat) :
    ∀ before reads, Decidable (FitLimit page_size limit before reads)
  | _, [] => isTrue trivial
  | before, d :: reads =>
      have := decidableFitLimit page_size limit (before ++ [d]) reads
      inferInstanceAs (Decidable (FitsAfter page_size limit before d ∧ _))

/-! ### The size of the buffer -/

/-- The results of `upsgi_buffer_ensure` when the buffer has to end at `reach`. -/
inductive EnsureCase (ub : UpsgiBuffer) (reach : Nat) : Option UpsgiBuffer → Prop where
  | room (hle : reach ≤ ub.len) : EnsureCase ub reach (some ub)
  | grown (hlt : ub.len < reach) (hunder : 0 < ub.limit → reach ≤ ub.limit) :
      EnsureCase ub reach (some { ub with len := reach })
  | cut (hpos : 0 < ub.limit) (hover : ub.limit < reach) (hlt : ub.len < reach)
      (hne : ub.len ≠ ub.limit) : EnsureCase ub reach (some { ub with len := ub.limit })
  | refused (hpos : 0 < ub.limit) (hover : ub.limit < reach) (heq : ub.len = ub.limit) :
      EnsureCase ub reach none

theorem upsgi_buffer_ensure_cases {ub : UpsgiBuffer} (hfits : ub.data.length ≤ ub.len) (len : Nat) :
    EnsureCase ub (ub.data.length + len) (upsgi_buffer_ensure ub len true) := by
  unfold upsgi_buffer_ensure
  dsimp only
  by_cases hgrow : ub.len < ub.data.length + len
  · have hend : ub.len + (len - (ub.len - ub.data.length)) = ub.data.length + len := by omega
    rw [if_pos (show ub.len - ub.data.length < len by omega), hend]
    split
    · next hover =>
      split
      · next heq => exact .refused hover.1 hover.2 (heq.resolve_right Bool.noConfusion).symm
      · next hne => exact .cut hover.1 hover.2 hgrow fun heq => hne (.inl heq.symm)
    · next hunder => exact .grown hgrow fun hpos => by omega
  · rw [if_neg (show ¬ ub.len - ub.data.length < len by omega)]
    exact .room (Nat.le_of_not_lt hgrow)

/-- What is known about the buffer after the reads `before`. -/
structure Sized (page_size limit : Nat) (before : List Decoder) (d : Decoder) : Prop where
  limit_eq : d.buf.limit = limit
  fits : d.buf.data.length ≤ d.buf.len
  full : 0 < limit → AtLimit page_size limit before → d.buf.len = limit
  growing : 0 < limit → ¬ AtLimit page_size limit before →
    page_size ≤ d.buf.len ∧ (d.buf.len < limit ∨ (limit < page_size ∧ d.buf.len = page_size))

section Size

variable {page_size limit : Nat} {before : List Decoder} {d d' : Decoder}

theorem Sized.shrinks (h : Sized page_size limit before d) (hshrinks : d.Shrinks d') :
    Sized page_size limit before d' where
  limit_eq := hshrinks.limit.trans h.limit_eq
  fits := by
    rw [hshrinks.len]
    exact Nat.le_trans hshrinks.held h.fits
  full := by
    rw [hshrinks.len]
    exact h.full
  growing := by
    rw [hshrinks.len]
    exact h.growing

/-- The reads that the limit allows are those that fit after the earlier ones. -/
theorem Sized.allows_iff (h : Sized page_size limit before d) (hpage : 0 < page_size) :
    LimitAllows page_size d ↔ FitsAfter page_size limit before d := by
  obtain ⟨rfl, hfits, hfull, hgrowing⟩ := h
  have hreach : d.buf.data.length < d.reach page_size := by
    unfold Decoder.reach
    omega
  have hcases : EnsureCase d.buf (d.reach page_size) _ :=
    upsgi_buffer_ensure_cases hfits (max page_size d.need)
  unfold LimitAllows FitsAfter
  generalize upsgi_buffer_ensure d.buf (max page_size d.need) true = out at hcases ⊢
  cases hcases with
  | room hle =>
    refine iff_of_true ⟨_, rfl, Nat.lt_of_lt_of_le hreach hle⟩ fun hpos hover => ?_
    by_cases hat : AtLimit page_size d.buf.limit before
    · have := hfull hpos hat
      omega
    · have := hgrowing hpos hat
      exact ⟨hat, .inr (by omega)⟩
  | grown _ hunder => exact iff_of_true ⟨_, rfl, hreach⟩ fun hpos hover => absurd hunder (by omega)
  | cut hpos hover hlt hne =>
    have hat : ¬ AtLimit page_size d.buf.limit before := fun hat => hne (hfull hpos hat)
    have := hgrowing hpos hat
    rw [imp_iff_right hpos, imp_iff_right hover, and_iff_right hat, or_iff_left (by omega)]
    constructor
    · rintro ⟨_, hsome, hroom⟩
      cases hsome
      exact hroom
    · exact fun hroom => ⟨_, rfl, hroom⟩
  | refused hpos hover heq =>
    refine iff_of_false (fun hsome => nomatch hsome.choose_spec.1) fun hfit => ?_
    have := hgrowing hpos (hfit hpos hover).1
    omega

theorem atLimit_snoc : AtLimit page_size limit (before ++ [d]) ↔
    AtLimit page_size limit before ∨ (page_size < d.reach page_size ∧ limit ≤ d.reach page_size) := by
  unfold AtLimit
  simp only [mem_append, mem_singleton, or_and_right, exists_or, exists_eq_left]
  rw [or_assoc]

/-- The size of the buffer after a read that the limit allows. -/
theorem Sized.ensured (h : Sized page_size limit before d) {buf : UpsgiBuffer}
    (hbuf : upsgi_buffer_ensure d.buf (max page_size d.need) true = some buf)
    (hroom : d.buf.data.length < buf.len) :
    Sized page_size limit (before ++ [d]) { d with buf := buf } := by
  obtain ⟨rfl, hfits, hfull, hgrowing⟩ := h
  have hcases : EnsureCase d.buf (d.reach page_size) _ :=
    upsgi_buffer_ensure_cases hfits (max page_size d.need)
  rw [hbuf] at hcases
  refine ⟨?_, ?_, ?_, ?_⟩
  · cases hcases <;> rfl
  · cases hcases <;> exact Nat.le_of_lt hroom
  · intro hpos hat
    rw [atLimit_snoc] at hat
    by_cases hbefore : AtLimit page_size d.buf.limit before
    · have := hfull hpos hbefore
      cases hcases with
      | room => exact this
      | grown => show d.reach page_size = _; omega
      | cut => rfl
    · have := hgrowing hpos hbefore
      have := hat.resolve_left hbefore
      cases hcases with
      | room => show d.buf.len = _; omega
      | grown => show d.reach page_size = _; omega
      | cut => rfl
  · intro hpos hat
    rw [atLimit_snoc, not_or] at hat
    have := hgrowing hpos hat.1
    cases hcases with
    | room => exact this
    | grown =>
      show page_size ≤ d.reach page_size ∧ (d.reach page_size < _ ∨ _)
      omega
    | cut => omega

end Size

/-! ### Reads one after another -/

/-- Reads after the reads `before` that leave the decoder `d`: the limit allows
    them exactly if they fit, and the size of the buffer is known when it does. -/
structure Judged (page_size limit : Nat) (before reads : List Decoder) (d : Decoder) : Prop where
  iff : (∀ e ∈ reads, LimitAllows page_size e) ↔ FitLimit page_size limit before reads
  sized : (∀ e ∈ reads, LimitAllows page_size e) → Sized page_size limit (before ++ reads) d

section Judged

variable {page_size limit : Nat} {before reads more : List Decoder} {d d' : Decoder}

theorem Judged.nil (h : Sized page_size limit before d) : Judged page_size limit before [] d where
  iff := iff_of_true nofun trivial
  sized := fun _ => by rwa [append_nil]

theorem Judged.cons (hpage : 0 < page_size) (h : Sized page_size limit before d)
    (hrest : LimitAllows page_size d → Judged page_size limit (before ++ [d]) reads d') :
    Judged page_size limit before (d :: reads) d' where
  iff := by
    rw [forall_mem_cons]
    constructor
    · rintro ⟨hallows, hreads⟩
      exact ⟨(h.allows_iff hpage).mp hallows, (hrest hallows).iff.mp hreads⟩
    · rintro ⟨hfits, hreads⟩
      have hallows := (h.allows_iff hpage).mpr hfits
      exact ⟨hallows, (hrest hallows).iff.mpr hreads⟩
  sized := by
    rw [forall_mem_cons]
    rintro ⟨hallows, hreads⟩
    have hsized := (hrest hallows).sized hreads
    rwa [append_assoc, singleton_append] at hsized

theorem fitLimit_append : FitLimit page_size limit before (reads ++ more) ↔
    FitLimit page_size limit before reads ∧ FitLimit page_size limit (before ++ reads) more := by
  induction reads generalizing before with
  | nil => simp [FitLimit]
  | cons e reads ih =>
    rw [cons_append, FitLimit, FitLimit, ih, and_assoc, append_assoc, singleton_append]

end Judged

section Reads

variable {limit : Nat} (cfg : ChunkedConfig)

/-- Loop, by induction on the reads it makes. -/
theorem loopReads_judged (recvs : List Recv) (hmemory : ∀ recv ∈ recvs, recv.room = true) :
    ∀ (before : List Decoder) (conn : Conn) (d : Decoder), Sized cfg.page_size limit before d →
      Judged cfg.page_size limit before (loopReads cfg recvs conn d)
        (chunkedLoop cfg recvs conn d).2.1 := by
  induction recvs with
  | nil => exact fun before conn d h => .nil h
  | cons recv recvs ih =>
    intro before conn d h
    rw [forall_mem_cons] at hmemory
    unfold loopReads chunkedLoop
    rw [hmemory.1]
    cases hbuf : upsgi_buffer_ensure d.buf (max cfg.page_size d.need) true with
    | none =>
      -- the read is refused
      refine .cons cfg.page_size_pos h fun hallows => ?_
      obtain ⟨_, hsome, _⟩ := hallows
      rw [hbuf] at hsome
      cases hsome
    | some buf =>
      have hensured : LimitAllows cfg.page_size d →
          Sized cfg.page_size limit (before ++ [d]) { d with buf := buf } := by
        rintro ⟨_, hsome, hroom⟩
        rw [hbuf] at hsome
        cases hsome
        exact h.ensured hbuf hroom
      have hlen := readBody_length conn (buf.len - buf.data.length) recv
      dsimp only
      generalize readBody conn (buf.len - buf.data.length) recv = out at hlen ⊢
      obtain ⟨conn', got⟩ := out
      dsimp only at hlen ⊢
      -- the bytes that were read are in the room that was made
      have hreceived : LimitAllows cfg.page_size d →
          Sized cfg.page_size limit (before ++ [d]) (Decoder.received { d with buf := buf } got) := by
        intro hallows
        obtain ⟨hlimit, hfits, hfull, hgrowing⟩ := hensured hallows
        refine ⟨hlimit, ?_, hfull, hgrowing⟩
        show (buf.data ++ got).length ≤ buf.len
        have hheld : buf.data.length ≤ buf.len := hfits
        rw [length_append]
        omega
      split
      · exact .cons cfg.page_size_pos h fun hallows => .nil (hensured hallows)
      · change Judged _ _ _
          (if 0 < (Decoder.received { d with buf := buf } got).need then _ else _)
          (if 0 < (Decoder.received { d with buf := buf } got).need then _ else _ :
            Conn × Decoder × ChunkResult).2.1
        split
        · exact .cons cfg.page_size_pos h fun hallows => ih hmemory.2 _ conn' _ (hreceived hallows)
        · have hshrinks := chunkedParse_shrinks recv.beyond (Decoder.received { d with buf := buf } got)
          change Judged _ _ _ _ (match chunkedParse recv.beyond
              (Decoder.received { d with buf := buf } got) with
            | (d, some result) => (conn', d, result)
            | (d, none) => chunkedLoop cfg recvs conn' d).2.1
          generalize chunkedParse recv.beyond (Decoder.received { d with buf := buf } got) = parsed
            at hshrinks ⊢
          obtain ⟨e, result⟩ := parsed
          cases result with
          | some result =>
            exact .cons cfg.page_size_pos h fun hallows => .nil ((hreceived hallows).shrinks hshrinks)
          | none =>
            exact .cons cfg.page_size_pos h fun hallows =>
              ih hmemory.2 _ conn' e ((hreceived hallows).shrinks hshrinks)

/-- One call. -/
theorem callReads_judged {before : List Decoder} {d : Decoder} (call : ChunkedCall)
    (hmemory : ∀ recv ∈ call.recvs, recv.room = true) (conn : Conn)
    (h : Sized cfg.page_size limit before d) :
    Judged cfg.page_size limit before (callReads cfg call conn d)
      (upsgi_chunked_read cfg call conn (some d)).2.1 := by
  have hemptied := h.shrinks d.shrinks_emptied
  unfold callReads upsgi_chunked_read
  rw [Option.getD_some]
  dsimp only
  split
  · exact .nil h
  · split
    · exact .nil h
    · change Judged _ _ _ _ (if 0 < d.emptied.need ∨ d.emptied.buf.data = [] then
        chunkedLoop cfg call.recvs conn d.emptied
        else match chunkedParse call.beyond d.emptied with
          | (d, some result) => (conn, d, result)
          | (d, none) => chunkedLoop cfg call.recvs conn d).2.1
      split
      · exact loopReads_judged cfg call.recvs hmemory before conn _ hemptied
      · have hshrinks := chunkedParse_shrinks call.beyond d.emptied
        generalize chunkedParse call.beyond d.emptied = parsed at hshrinks ⊢
        obtain ⟨e, result⟩ := parsed
        cases result with
        | some result => exact .nil (hemptied.shrinks hshrinks)
        | none =>
          exact loopReads_judged cfg call.recvs hmemory before conn e (hemptied.shrinks hshrinks)

/-- Run: calls one after another. -/
theorem chunkedReads_allowed_iff (calls : List ChunkedCall)
    (hmemory : ∀ call ∈ calls, ∀ recv ∈ call.recvs, recv.room = true) :
    ∀ (before : List Decoder) (conn : Conn) (d : Decoder), Sized cfg.page_size limit before d →
      ((∀ e ∈ chunkedReads cfg calls conn d, LimitAllows cfg.page_size e) ↔
        FitLimit cfg.page_size limit before (chunkedReads cfg calls conn d)) := by
  induction calls with
  | nil => exact fun before conn d h => (Judged.nil h).iff
  | cons call calls ih =>
    intro before conn d h
    rw [forall_mem_cons] at hmemory
    have hcall := callReads_judged cfg call hmemory.1 conn h
    unfold chunkedReads
    rw [forall_mem_append, fitLimit_append, ← hcall.iff]
    exact and_congr_right fun hreads => ih hmemory.2 _ _ _ (hcall.sized hreads)

end Reads

/-- A page of 16 bytes and a limit of two pages. -/
def twoPages : ChunkedConfig := ⟨16, smallPage.page_size_pos, 32, .inr (by decide)⟩

/-- A chunk of 20 bytes. -/
def limitChunk : Bytes := lit "abcdefghijklmnopqrst"

/-- The body with that chunk. -/
def limitBody : Bytes := lit "14\r\n" ++ limitChunk ++ lit "\r\n0\r\n\r\n"

end Upsgi
