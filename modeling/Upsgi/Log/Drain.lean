import Upsgi.Log.Round
import Upsgi.Log.Rsyslog

/-! # When a blocking flush ends

    The flush loop goes on until the queue is empty, and a round that writes
    nothing changes nothing.  Over sinks whose system calls all succeed this
    leaves the records that a sink never takes: empty ones that are not batched
    with data, and those the rsyslog logger cuts short or refuses.
-/

namespace Upsgi

open Framing LinkedList List

/-! ### Items -/

section items

variable {L : Type}
variable {item : LogItem L} {items : List (LogItem L)}

theorem LogItem.rest_of_pos (h : item.pos = 0) : item.rest = item.buf := by
  simp [LogItem.rest, h]

/-- The shape of the queue during a flush: only a head that has bytes left may
    have been written in part. -/
structure HeadOnly (items : List (LogItem L)) : Prop where
  tail : ∀ item ∈ items.tail, item.pos = 0
  head : ∀ item ∈ items.head?, item.rest = [] → item.pos = 0

theorem HeadOnly.of_tail (h : HeadOnly (item :: items)) : HeadOnly items := by
  refine ⟨fun x hx => h.tail x (mem_of_mem_tail hx), ?_⟩
  intro x hx _
  exact h.tail x (mem_of_mem_head? hx)

@[simp]
theorem batchLength_nil : batchLength ([] : List (LogItem L)) = 0 := rfl

@[simp]
theorem batchLength_cons (item : LogItem L) (items : List (LogItem L)) :
    batchLength (item :: items) = item.buf.length + batchLength items := by
  simp [batchLength]

theorem remaining_cons (item : LogItem L) (items : List (LogItem L)) :
    remaining (item :: items) = item.rest.length + remaining items := by
  simp [remaining]

theorem LogItem.rest_advance (item : LogItem L) (n : Nat) :
    ({ item with pos := item.pos + n } : LogItem L).rest = item.rest.drop n := by
  simp [LogItem.rest, Nat.add_comm]

theorem remaining_consumeItems (items : List (LogItem L)) (n : Nat) :
    remaining (consumeItems items n) = remaining items - n := by
  fun_induction consumeItems items n with
  | case1 => simp [remaining]
  | case2 => rfl
  | case3 item items n hn hle ih =>
    rw [ih, remaining_cons]
    omega
  | case4 item items n hn hlt =>
    rw [remaining_cons, remaining_cons, item.rest_advance, length_drop]
    omega

theorem HeadOnly.consumeItems (h : HeadOnly items) (n : Nat) :
    HeadOnly (consumeItems items n) := by
  refine ⟨only_head_consume items n h.tail, ?_⟩
  fun_induction Upsgi.consumeItems items n with
  | case1 | case2 => exact h.head
  | case3 item items n hn hle ih => exact ih h.of_tail
  | case4 item items n hn hlt =>
    -- a head that keeps bytes is not empty
    intro x hx hrest
    obtain rfl : _ = x := by simpa using hx
    rw [item.rest_advance, drop_eq_nil_iff] at hrest
    exact absurd hrest hlt

section

variable {P : LogItem L → Prop}
    (hpart : ∀ item n, P item → n < item.rest.length → P { item with pos := item.pos + n })
    (h : ∀ item ∈ items, P item)
include hpart h

/-- What holds of all items, and of an item of which some bytes are written,
    holds of all items after consuming. -/
theorem forall_consumeItems (n : Nat) : ∀ item ∈ consumeItems items n, P item := by
  fun_induction consumeItems items n with
  | case1 | case2 => exact h
  | case3 item items n hn hle ih => exact ih (forall_mem_cons.mp h).2
  | case4 item items n hn hlt =>
    rw [forall_mem_cons] at h ⊢
    exact ⟨hpart item n h.1 (by omega), h.2⟩

theorem forall_advance (res : CallResult) : ∀ item ∈ advance items res, P item := by
  cases res with
  | count n => exact forall_consumeItems hpart h n
  | fail err | hang => exact h

end

theorem remaining_advance_lt {n : Nat} (hn : 0 < n)
    (hrem : 0 < remaining items) : remaining (advance items (.count n)) < remaining items := by
  rw [advance, remaining_consumeItems]
  omega

theorem HeadOnly.advance (h : HeadOnly items) (res : CallResult) :
    HeadOnly (advance items res) := by
  cases res with
  | count n => exact h.consumeItems n
  | fail err | hang => exact h

theorem headOnly_of_pos (hpos : ∀ item ∈ items, item.pos = 0) :
    HeadOnly items :=
  ⟨fun item h => hpos item (mem_of_mem_tail h), fun item h _ => hpos item (mem_of_mem_head? h)⟩

/-- A record that is written whatever is cut off its front: it has bytes, and
    an rsyslog logger takes any end of it, before and after a reset. -/
structure Robust (kind : L → SinkKind) (item : LogItem L) : Prop where
  nonempty : item.rest ≠ []
  rsyslog : ∀ l r, item.logger = some l → kind l = .rsyslog r →
    item.rest.getLast? ≠ some LF ∧ 0 < r.msg_size ∧
      max r.prio.length 2 + r.data.length + 20 + min r.msg_size item.rest.length < r.packet_size

theorem Robust.advance {kind : L → SinkKind} {n : Nat} (h : Robust kind item)
    (hn : n < item.rest.length) : Robust kind { item with pos := item.pos + n } := by
  have hrest := item.rest_advance n
  constructor
  · rw [hrest]
    exact ne_nil_of_length_pos (by rw [length_drop]; omega)
  · intro l r hl hk
    obtain ⟨hlast, hsize, hfit⟩ := h.rsyslog l r hl hk
    rw [hrest, getLast?_drop_of_lt hn, length_drop]
    exact ⟨hlast, hsize, by omega⟩

end items

/-! ### The records a flush gets rid of -/

variable {L : Type} [DecidableEq L]
variable {logger : Option L} {j : Nat} {items : List (LogItem L)} {kind : L → SinkKind}
    {item : LogItem L}

/-- Among the next `k` items, after empty ones of the same logger, there is one
    with data of the same logger that fits into a batch. -/
def followedByData (logger : Option L) : Nat → List (LogItem L) → Bool
  | 0, _ => false
  | _ + 1, [] => false
  | k + 1, item :: items =>
      if item.logger ≠ logger then false
      else if item.buf = [] then followedByData logger k items
      else decide (item.buf.length ≤ UPSGI_LOG_QUEUE_BATCH_BYTES_MAX)

/-- The item at the head of a queue is written at some time: an empty one
    together with data behind it, a record of rsyslog slice by slice. -/
def ItemTaken (kind : L → SinkKind) (item : LogItem L) (items : List (LogItem L)) : Prop :=
  if item.rest = [] then
    batchable kind item.logger = true ∧ followedByData item.logger 15 items = true
  else ∀ l r, item.logger = some l → kind l = .rsyslog r → r.Takes item.rest

/-- Every item is written at some time. -/
def Flushable (kind : L → SinkKind) : List (LogItem L) → Prop
  | [] => True
  | item :: items => ItemTaken kind item items ∧ Flushable kind items

/-- A logger whose sink counts message bytes only, and whose packets do not
    change their length after a reset. -/
structure PlainLogger (kind : L → SinkKind) (ul : Option L) : Prop where
  no_prefix : ∀ l data, ul = some l → kind l = .socket data → data.getD [] = []
  prio : ∀ l r, ul = some l → kind l = .rsyslog r → r.prio.length = 2

/-! ### Batches -/

theorem followedByData_mono {k : Nat} (hjk : j ≤ k) (h : followedByData logger j items = true) :
    followedByData logger k items = true := by
  fun_induction followedByData logger j items generalizing k with
  | case1 | case2 | case3 => cases h
  | case4 j item items hl hb ih =>
    obtain ⟨k, rfl⟩ := Nat.exists_eq_add_of_lt hjk
    rw [followedByData, if_neg hl, if_pos hb]
    exact ih (by omega) h
  | case5 j item items hl hb =>
    obtain ⟨k, rfl⟩ := Nat.exists_eq_add_of_lt hjk
    rw [followedByData, if_neg hl, if_neg hb]
    exact h

/-- Data that got into a batch lies close enough behind its head. -/
theorem followedByData_of_batch {count len : Nat} (hc : 0 < count)
    (h : 0 < batchLength (collectBatch logger count len (items.take j))) :
    followedByData logger j items = true := by
  induction items generalizing count len j with
  | nil => simp [collectBatch] at h
  | cons item items ih =>
    cases j with
    | zero => simp [collectBatch] at h
    | succ j =>
      rw [take_succ_cons, collectBatch] at h
      split at h
      · simp at h
      · next hl =>
        split at h
        · simp at h
        · next hmax =>
          have hlogger : item.logger = logger := by
            by_contra hne
            exact hl (.inl hne)
          unfold followedByData
          rw [if_neg (by simp [hlogger])]
          split
          · next hnil =>
            rw [batchLength_cons, hnil, length_nil, Nat.zero_add] at h
            exact ih (by omega) h
          · simp only [decide_eq_true_eq]
            omega

/-- Data close enough behind an empty head gets into its batch. -/
theorem batch_of_followedByData (hpos : ∀ item ∈ items, item.pos = 0)
    (h : followedByData logger j items = true)
    (count : Nat) : 0 < batchLength (collectBatch logger count 0 (items.take j)) := by
  fun_induction followedByData logger j items generalizing count with
  | case1 | case2 | case3 => cases h
  | case4 j item items hl hnil ih =>
    rw [forall_mem_cons] at hpos
    rw [take_succ_cons, collectBatch, if_neg (by simpa [hpos.1] using hl), if_neg (by simp [hnil]),
      batchLength_cons, hnil]
    simpa using ih hpos.2 h (count + 1)
  | case5 j item items hl hdata =>
    rw [forall_mem_cons] at hpos
    rw [decide_eq_true_eq] at h
    rw [take_succ_cons, collectBatch, if_neg (by simpa [hpos.1] using hl), if_neg (by omega),
      batchLength_cons]
    have := length_pos_of_ne_nil hdata
    omega

/-- Writing a batch keeps the answer to whether everything is written at some
    time. -/
theorem flushable_batch (hb : batchable kind logger = true) {count len : Nat} (hj : j ≤ 16) :
    Flushable kind
        (consumeItems items (batchLength (collectBatch logger count len (items.take j)))) ↔
      Flushable kind items := by
  induction items generalizing count len j with
  | nil => simp [consumeItems]
  | cons item items ih =>
    by_cases hzero : batchLength (collectBatch logger count len ((item :: items).take j)) = 0
    · rw [hzero]
      simp [consumeItems]
    cases j with
    | zero => simp [collectBatch] at hzero
    | succ j =>
      rw [take_succ_cons, collectBatch] at hzero ⊢
      split at hzero
      · simp at hzero
      · next hl =>
        split at hzero
        · simp at hzero
        · next hmax =>
          rw [if_neg hl, if_neg hmax]
          have hlogger : item.logger = logger := by
            by_contra hne
            exact hl (.inl hne)
          have hpos : item.pos = 0 := by
            by_contra hne
            exact hl (.inr hne)
          rw [batchLength_cons] at hzero ⊢
          -- the first item goes; it was one that is written at some time
          have htaken : ItemTaken kind item items := by
            unfold ItemTaken
            rw [LogItem.rest_of_pos hpos, hlogger]
            split
            · next hnil =>
              rw [hnil, length_nil, Nat.zero_add] at hzero
              refine ⟨hb, followedByData_mono (show j ≤ 15 by omega) ?_⟩
              exact followedByData_of_batch (Nat.succ_pos count) (Nat.pos_of_ne_zero hzero)
            · intro l r hlog hk
              rw [hlog] at hb
              simp [batchable, hk] at hb
          rw [consumeItems, if_neg hzero, LogItem.rest_of_pos hpos,
            if_pos (Nat.le_add_right _ _), Nat.add_sub_cancel_left, ih (by omega)]
          simp only [Flushable, htaken, true_and]

/-! ### Single writes -/

/-- A plain logger takes the whole message, or it is an rsyslog logger. -/
theorem plain_write_result {ul : Option L} (hplain : PlainLogger kind ul) (s : SinkLog L)
    (msg : Bytes) :
    (((bundledSinks kind).write s ul msg).2 = .count msg.length ∧
        ∀ l r, ul = some l → kind l ≠ .rsyslog r) ∨
      ∃ l r r', ul = some l ∧ kind l = .rsyslog r ∧ (∀ m, r'.Takes m ↔ r.Takes m) ∧
        ((bundledSinks kind).write s ul msg).2 = (upsgi_rsyslog_logger r' msg).2 := by
  cases ul with
  | none => exact .inl ⟨rfl, by simp⟩
  | some l =>
    cases hk : kind l with
    | file | fd | stdio =>
      exact .inl ⟨by simp [bundledSinks, SinkLog.kindOf, hk, loggerCall, SinkLog.called],
        by rintro _ r ⟨⟩; simp [hk]⟩
    | socket data =>
      have hdata := hplain.no_prefix l data rfl hk
      exact .inl ⟨by
        simp [bundledSinks, SinkLog.kindOf, hk, loggerCall, SinkLog.called, hdata],
        by rintro _ r ⟨⟩; simp [hk]⟩
    | rsyslog r =>
      have hprio := hplain.prio l r rfl hk
      refine .inr ⟨l, r, if s.reparsed l then r.reparsed else r, rfl, hk, ?_, ?_⟩
      · intro m
        split
        · exact Rsyslog.takes_reparsed hprio
        · exact Iff.rfl
      · simp only [bundledSinks, SinkLog.kindOf, hk, loggerCall, SinkLog.called]

/-- The condition on a record of rsyslog that has bytes left. -/
theorem itemTaken_rsyslog {l : L} {r : Rsyslog} (hl : item.logger = some l)
    (hk : kind l = .rsyslog r) (hnil : item.rest ≠ [])
    (items : List (LogItem L)) : ItemTaken kind item items ↔ r.Takes item.rest := by
  unfold ItemTaken
  rw [if_neg hnil]
  constructor
  · intro h
    exact h l r hl hk
  · intro h l' r' hl' hk'
    obtain rfl : l = l' := Option.some.inj (hl.symm.trans hl')
    obtain rfl : r = r' := SinkKind.rsyslog.inj (hk.symm.trans hk')
    exact h

/-- Writing the first item alone keeps the answer to whether everything is
    written at some time. -/
theorem flushable_single (hplain : PlainLogger kind item.logger) (s : SinkLog L) :
    Flushable kind (advance (item :: items)
        ((bundledSinks kind).write s item.logger item.rest).2) ↔
      Flushable kind (item :: items) := by
  rcases plain_write_result hplain s item.rest with ⟨hcount, hother⟩ | ⟨l, r, r', hl, hk, hr, heq⟩
  · rw [hcount]
    by_cases hnil : item.rest = []
    · simp [advance, hnil, consumeItems]
    -- the whole item goes
    have htaken : ItemTaken kind item items := by
      unfold ItemTaken
      rw [if_neg hnil]
      intro l r hlog hk
      exact absurd hk (hother l r hlog)
    rw [advance, consumeItems_head hnil]
    simp only [Flushable, htaken, true_and]
  · rw [heq]
    cases hres : (upsgi_rsyslog_logger r' item.rest).2 with
    | fail err | hang => rfl
    | count n =>
      rw [advance]
      by_cases hn : n = 0
      · simp [hn, consumeItems]
      obtain ⟨hle, hall, hpart⟩ := upsgi_rsyslog_logger_count hres (Nat.pos_of_ne_zero hn)
      have hnil : item.rest ≠ [] := by
        intro hnil
        rw [hnil] at hle
        exact hn (Nat.le_zero.mp hle)
      have htaken := itemTaken_rsyslog hl hk hnil items
      rw [consumeItems, if_neg hn]
      by_cases hlen : item.rest.length ≤ n
      · -- the call took the rest of the record
        have heqn : n = item.rest.length := by omega
        rw [if_pos hlen, heqn, Nat.sub_self, consumeItems_zero]
        simp only [Flushable, htaken, (hr _).mp (hall heqn), true_and]
      · -- the record stays with what is left of it
        rw [if_neg hlen]
        have hpart' := hpart (by omega)
        rw [hr, hr] at hpart'
        have hrest := item.rest_advance n
        have htaken' : ItemTaken kind { item with pos := item.pos + n } items ↔
            r.Takes (item.rest.drop n) := by
          have hnil' : ({ item with pos := item.pos + n } : LogItem L).rest ≠ [] := by
            rw [hrest]
            exact ne_nil_of_length_pos (by rw [length_drop]; omega)
          rw [← hrest]
          exact itemTaken_rsyslog (by exact hl) hk hnil' items
        simp only [Flushable, htaken, htaken', hpart']

/-! ### Rounds -/

theorem flushable_round {res : CallResult} (hplain : ∀ item ∈ items, PlainLogger kind item.logger)
    (h : Round kind items res) :
    Flushable kind (advance items res) ↔ Flushable kind items := by
  cases h with
  | batch item items hpos hb => exact flushable_batch hb (Nat.le_refl 16)
  | single item items s hone => exact flushable_single (hplain item (by simp)) s

theorem batchOf_cons (hpos : item.pos = 0) (items : List (LogItem L)) :
    batchOf item.logger (item :: items) =
      item :: collectBatch item.logger 1 item.buf.length (items.take 15) := by
  simp [batchOf, UPSGI_LOG_QUEUE_BATCH_IOV_MAX, collectBatch, hpos]

/-- An empty item that data follows is written together with data. -/
theorem batch_of_empty (hhead : HeadOnly (item :: items)) (hnil : item.rest = [])
    (h : followedByData item.logger 15 items = true) :
    0 < batchLength (collectBatch item.logger 1 item.buf.length (items.take 15)) := by
  have hbuf : item.buf = [] := by
    rw [← LogItem.rest_of_pos (hhead.head item rfl hnil)]
    exact hnil
  rw [hbuf]
  exact batch_of_followedByData hhead.tail h 1

/-- Behind an empty item that data follows there are bytes to write. -/
theorem remaining_pos_of_followedByData (hpos : ∀ item ∈ items, item.pos = 0)
    (h : followedByData logger j items = true) :
    0 < remaining items := by
  fun_induction followedByData logger j items with
  | case1 | case2 | case3 => cases h
  | case4 j item items hl hnil ih =>
    have := ih (forall_mem_cons.mp hpos).2 h
    rw [remaining_cons]
    omega
  | case5 j item items hl hdata =>
    have := length_pos_of_ne_nil hdata
    rw [remaining_cons, LogItem.rest_of_pos (hpos item (by simp))]
    omega

/-- Each round writes something when everything is written at some time. -/
theorem round_progress {res : CallResult} (hplain : ∀ item ∈ items, PlainLogger kind item.logger)
    (hhead : HeadOnly items) (hflush : Flushable kind items) (h : Round kind items res) :
    remaining (advance items res) < remaining items := by
  have hrem : 0 < remaining items := by
    cases items with
    | nil => cases h
    | cons item items =>
      rw [remaining_cons]
      by_cases hnil : item.rest = []
      · have htaken := hflush.1
        rw [ItemTaken, if_pos hnil] at htaken
        have hdata : 0 < remaining items := remaining_pos_of_followedByData hhead.tail htaken.2
        omega
      · have := length_pos_of_ne_nil hnil
        omega
  cases h with
  | batch item items hpos hb =>
    apply remaining_advance_lt _ hrem
    rw [batchOf_cons hpos, batchLength_cons]
    by_cases hnil : item.rest = []
    · have htaken := hflush.1
      rw [ItemTaken, if_pos hnil] at htaken
      have := batch_of_empty hhead hnil htaken.2
      omega
    · rw [LogItem.rest_of_pos hpos] at hnil
      have := length_pos_of_ne_nil hnil
      omega
  | single item items s hone =>
    have hnil : item.rest ≠ [] := by
      -- an empty item is not written alone when data follows it
      intro hnil
      have htaken := hflush.1
      rw [ItemTaken, if_pos hnil] at htaken
      have hpos := hhead.head item rfl hnil
      have hlen := hone hpos htaken.1
      have hdata := batch_of_empty hhead hnil htaken.2
      rw [batchOf_cons hpos, length_cons] at hlen
      have hempty := eq_nil_of_length_eq_zero (Nat.le_zero.mp (Nat.le_of_succ_le_succ hlen))
      rw [hempty] at hdata
      simp at hdata
    rcases plain_write_result (hplain item (by simp)) s item.rest with
      ⟨hcount, _⟩ | ⟨l, r, r', hl, hk, hr, heq⟩
    · rw [hcount]
      exact remaining_advance_lt (length_pos_of_ne_nil hnil) hrem
    · have htakes := (hr _).mpr ((itemTaken_rsyslog hl hk hnil items).mp hflush.1)
      obtain ⟨n, hn, hres⟩ := htakes.progress
      rw [heq, hres]
      exact remaining_advance_lt hn hrem

/-! ### The whole flush -/

section flush

variable {kind : L → SinkKind} {st : LogState L (SinkLog L)} {xs : List (Addr × LogItem L)}

theorem flush_halts_of_flushable (hq : QueueInv st.queue xs)
    (hhead : HeadOnly (xs.map Prod.snd))
    (hplain : ∀ item ∈ xs.map Prod.snd, PlainLogger kind item.logger)
    (hflush : Flushable kind (xs.map Prod.snd)) :
    Loop.Halts flushDone (flushRound (bundledSinks kind)) st := by
  let P (items : List (LogItem L)) : Prop :=
    HeadOnly items ∧ (∀ item ∈ items, PlainLogger kind item.logger) ∧ Flushable kind items
  have hP : P (xs.map Prod.snd) := ⟨hhead, hplain, hflush⟩
  refine flush_halts (fun items r h hround => ?_) hq hP
  obtain ⟨hh, hp, hf⟩ := h
  refine ⟨⟨hh.advance r, forall_advance (fun _ _ h _ => h) hp r, ?_⟩, ?_⟩
  · exact (flushable_round hp hround).mpr hf
  · exact round_progress hp hh hf hround

theorem flush_not_halts_of_not_flushable (hq : QueueInv st.queue xs)
    (hplain : ∀ item ∈ xs.map Prod.snd, PlainLogger kind item.logger)
    (hflush : ¬Flushable kind (xs.map Prod.snd)) :
    ¬Loop.Halts flushDone (flushRound (bundledSinks kind)) st := by
  let P (items : List (LogItem L)) : Prop :=
    (∀ item ∈ items, PlainLogger kind item.logger) ∧ ¬Flushable kind items
  have hP : P (xs.map Prod.snd) := ⟨hplain, hflush⟩
  refine flush_not_halts (fun h => h.2 trivial) (fun items r h hround => ?_) hq hP
  obtain ⟨hp, hf⟩ := h
  exact ⟨forall_advance (fun _ _ h _ => h) hp r, fun h => hf ((flushable_round hp hround).mp h)⟩

/-- A robust record makes every call take something, whatever the logger. -/
theorem Robust.write {item : LogItem L} (h : Robust kind item) (s : SinkLog L) :
    ∃ n, 0 < n ∧ ((bundledSinks kind).write s item.logger item.rest).2 = .count n := by
  have hlen := length_pos_of_ne_nil h.nonempty
  cases hl : item.logger with
  | none => exact ⟨_, hlen, rfl⟩
  | some l =>
    simp only [bundledSinks, SinkLog.kindOf, SinkLog.called]
    cases hk : kind l with
    | file | fd | stdio => exact ⟨_, hlen, rfl⟩
    | socket data => exact ⟨(data.getD []).length + item.rest.length, by omega, rfl⟩
    | rsyslog r =>
      obtain ⟨hlast, hsize, hfit⟩ := h.rsyslog l r hl hk
      have hlit : (lit "29").length = 2 := rfl
      apply Rsyslog.Takes.progress
      split
      · -- the default priority, after a reset
        have hsize' : 0 < r.reparsed.msg_size := hsize
        apply Rsyslog.takes_of_short h.nonempty hlast hsize'
        change (lit "29").length + r.data.length + 20 + min r.msg_size item.rest.length <
          r.packet_size
        omega
      · apply Rsyslog.takes_of_short h.nonempty hlast hsize
        unfold Rsyslog.overhead
        omega

theorem flush_halts_of_robust (hq : QueueInv st.queue xs)
    (hrobust : ∀ item ∈ xs.map Prod.snd, Robust kind item) :
    Loop.Halts flushDone (flushRound (bundledSinks kind)) st := by
  let P (items : List (LogItem L)) : Prop := ∀ item ∈ items, Robust kind item
  have hP : P (xs.map Prod.snd) := hrobust
  refine flush_halts (fun items res h hround => ?_) hq hP
  refine ⟨forall_advance (fun _ _ h hn => h.advance hn) h res, ?_⟩
  have hrem : 0 < remaining items := by
    cases items with
    | nil => cases hround
    | cons item items =>
      rw [remaining_cons]
      have := length_pos_of_ne_nil (h item (by simp)).nonempty
      omega
  cases hround with
  | batch item items hpos hb =>
    apply remaining_advance_lt _ hrem
    have hbuf := length_pos_of_ne_nil (h item (by simp)).nonempty
    rw [LogItem.rest_of_pos hpos] at hbuf
    rw [batchOf_cons hpos, batchLength_cons]
    omega
  | single item items s hone =>
    obtain ⟨n, hn, hres⟩ := (h item (by simp)).write s
    rw [hres]
    exact remaining_advance_lt hn hrem

end flush

/-- A queue with the records of one logger. -/
def queueOf (records : List Bytes) : LogQueue Unit :=
  records.foldl (fun queue record => upsgi_log_queue_push queue ⟨some (), record, 0⟩)
    (LogQueue.empty 1024 4194304)

/-- Nothing is configured yet. -/
def freshState (queue : LogQueue Unit) : LogState Unit (SinkLog Unit) where
  sinks := SinkLog.fresh
  recovery_needed := fun _ => false
  queue := queue

end Upsgi
