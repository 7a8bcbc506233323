import Upsgi.Log.Round
import Upsgi.Log.Rsyslog

/-! # Records over the datagram loggers

    The socket and the rsyslog logger keep record boundaries: a record is meant
    to leave in one call.  The queue only knows the count a call returns, so a
    count that is not the length of the record shifts what the next call sends.
    Here is what keeps count and record together, and what a run then looks
    like.
-/

namespace Upsgi

open Framing LinkedList List

section records

variable {L : Type}
variable {kind : L → SinkKind} {l : L} {msg : Bytes}

/-! ### Records that keep their boundary -/

/-- A record that its logger takes in one call, with its length as the count. -/
def RecordKept (kind : L → SinkKind) (record : Record L) : Prop :=
  ∃ l, record.1 = some l ∧ record.2 ≠ [] ∧
    match kind l with
    | .socket data => data.getD [] = []
    | .rsyslog r => r.SendsWhole record.2
    | _ => False

/-- Only records that keep their boundary are submitted. -/
def EventKept (kind : L → SinkKind) : LogEvent L → Prop
  | .submit record => RecordKept kind record
  | _ => True

section

variable (h : RecordKept kind (some l, msg))
include h

theorem RecordKept.loggerCall :
    Upsgi.loggerCall (kind l) msg = (msg, .count msg.length) := by
  obtain ⟨l', hl, _, hk⟩ := h
  obtain rfl : l = l' := Option.some.inj hl
  cases hkind : kind l with
  | file | fd | stdio => simp [hkind] at hk
  | socket data =>
    rw [hkind] at hk
    simp [Upsgi.loggerCall, hk]
  | rsyslog r =>
    rw [hkind] at hk
    exact loggerCall_rsyslog hk

/-- The call that configures a datagram logger carries nothing. -/
theorem RecordKept.probe : (Upsgi.loggerCall (kind l) []).2 = .count 0 := by
  obtain ⟨l', hl, _, hk⟩ := h
  obtain rfl : l = l' := Option.some.inj hl
  cases hkind : kind l with
  | file | fd | stdio | rsyslog r => rfl
  | socket data =>
    rw [hkind] at hk
    simp [Upsgi.loggerCall, hk]

theorem RecordKept.not_batchable : batchable kind (some l) = false := by
  obtain ⟨l', hl, _, hk⟩ := h
  obtain rfl : l = l' := Option.some.inj hl
  cases hkind : kind l <;> simp_all [batchable]

end

/-- No call failed so far: no logger was reset or waits for a reset, and no
    call returned more than it was offered. -/
structure Calm (s : SinkLog L) (flags : RecoveryFlags L) : Prop where
  reparsed : ∀ l, s.reparsed l = false
  flags : ∀ l, flags l = false
  returned : ∀ call ∈ s.calls, ∀ n, call.returned = .count n → n ≤ call.offered.length

theorem Calm.kindOf {s : SinkLog L} {flags : RecoveryFlags L} (h : Calm s flags)
    (kind : L → SinkKind) (l : L) : s.kindOf kind l = kind l := by
  unfold SinkLog.kindOf
  cases hk : kind l <;> simp [h.reparsed l]

end records

variable {L : Type} [DecidableEq L]
variable {s : SinkLog L} {flags : RecoveryFlags L} {kind : L → SinkKind} {l : L}

/-! ### What the sinks were handed -/

/-- The messages a logger has carried, call by call.  The empty message that
    configures a logger is not a record. -/
def SinkLog.handed (s : SinkLog L) (l : L) : List Bytes :=
  (s.calls.filter fun call => call.logger = l ∧ call.offered ≠ []).map SinkCall.carried

/-- The records for one logger. -/
def recordsFor (l : L) (records : List (Record L)) : List Bytes :=
  (records.filter fun record => record.1 = some l).map Prod.snd

/-- The queued records of one logger. -/
def queuedRecords (l : L) (items : List (LogItem L)) : List Bytes :=
  (items.filter fun item => item.logger = some l).map LogItem.buf

/-- The items whose record was not handed to a sink: while a count is being
    consumed, the head was. -/
def Ctl.unhanded (ctl : Ctl L) (items : List (LogItem L)) : List (LogItem L) :=
  match ctl with
  | .consuming _ _ => items.tail
  | _ => items

/-- Each record is handed to its sink exactly once and as a whole: what the
    sinks were handed, what is queued and what waits are the submitted records;
    what is about to be consumed is exactly the record that was handed over,
    and no call returned more than it was offered. -/
structure HandedWhole (sys : LogSys L (SinkLog L)) (xs : List (Addr × LogItem L)) : Prop where
  queue : QueueInv sys.st.queue xs
  whole : ∀ x ∈ xs, x.2.pos = 0
  balance : ∀ l, sys.st.sinks.handed l ++ queuedRecords l (sys.ctl.unhanded (xs.map Prod.snd)) ++
    recordsFor l sys.ctl.waiting = recordsFor l sys.submitted
  consumed : ∀ written waiting, sys.ctl = .consuming written waiting →
    ∃ item items, xs.map Prod.snd = item :: items ∧ written = item.buf.length
  returned : ∀ call ∈ sys.st.sinks.calls, ∀ n, call.returned = .count n → n ≤ call.offered.length

/-! ### One record -/

theorem SinkLog.handed_called (s : SinkLog L) (l l' : L) (offered carried : Bytes)
    (returned : CallResult) :
    (s.called l offered carried returned).1.handed l' =
      s.handed l' ++ if l = l' ∧ offered ≠ [] then [carried] else [] := by
  unfold SinkLog.handed SinkLog.called
  by_cases h : l = l' ∧ offered ≠ [] <;> simp [h]

theorem Calm.called (h : Calm s flags) (l : L) {offered : Bytes} (carried : Bytes) {n : Nat}
    (hn : n ≤ offered.length) :
    Calm (s.called l offered carried (.count n)).1 flags := by
  refine ⟨h.reparsed, h.flags, ?_⟩
  intro call hcall m hm
  rcases mem_append.mp hcall with hmem | hmem
  · exact h.returned call hmem m hm
  · obtain rfl := mem_singleton.mp hmem
    obtain rfl := CallResult.count.inj hm
    exact hn

section

variable (h : Calm s flags) {msg : Bytes} (hkept : RecordKept kind (some l, msg))
include h hkept

/-- Preparing a datagram logger hands no record to it. -/
theorem prepare_batchable_calm :
    Calm (upsgi_log_sink_prepare_batchable (bundledSinks kind) s (some l)).1 flags ∧
      ∀ l', (upsgi_log_sink_prepare_batchable (bundledSinks kind) s (some l)).1.handed l' =
        s.handed l' := by
  unfold upsgi_log_sink_prepare_batchable
  dsimp only
  split
  · exact ⟨h, fun _ => rfl⟩
  · split
    · exact ⟨h, fun _ => rfl⟩
    · have hwrite : ((bundledSinks kind).write s (some l) []).1 =
          (s.called l [] (loggerCall (kind l) []).1 (.count 0)).1 := by
        simp only [bundledSinks, h.kindOf kind l, hkept.probe]
      rw [hwrite]
      refine ⟨h.called l _ (Nat.le_refl 0), ?_⟩
      intro l'
      rw [SinkLog.handed_called]
      simp

/-- A kept record is handed over in one call. -/
theorem sink_write_kept :
    upsgi_log_sink_write (bundledSinks kind) s flags (some l) msg =
      ((s.called l msg msg (.count msg.length)).1, flags.set l false, .count msg.length) := by
  have hreset : resetIfNeeded (bundledSinks kind) l flags s = s := by
    simp [resetIfNeeded, h.flags l]
  have hwrite : (bundledSinks kind).write s (some l) msg =
      s.called l msg msg (.count msg.length) := by
    simp only [bundledSinks, h.kindOf kind l, hkept.loggerCall]
  have hcount : ((bundledSinks kind).write (resetIfNeeded (bundledSinks kind) l flags s) (some l)
      msg).2 = .count msg.length := by
    rw [hreset, hwrite]
    rfl
  unfold upsgi_log_sink_write
  dsimp only
  rw [withRecovery_count _ hcount, hreset, hwrite]

end

/-- The sink call of a round whose head keeps its boundary: the record is handed
    over and its length returned. -/
theorem flushWrite_kept {st : LogState L (SinkLog L)} {item : LogItem L}
    (hcalm : Calm st.sinks st.recovery_needed) (hl : item.logger = some l)
    (hkept : RecordKept kind (some l, item.buf)) (hpos : item.pos = 0) :
    ∃ sinks flags, flushWrite (bundledSinks kind) st item =
        ({ st with sinks := sinks, recovery_needed := flags }, .count item.buf.length) ∧
      Calm sinks flags ∧
      ∀ l', sinks.handed l' = st.sinks.handed l' ++ if l = l' then [item.buf] else [] := by
  have hready := prepare_batchable_bundled kind st.sinks (some l)
  obtain ⟨hcalm1, hhanded1⟩ := prepare_batchable_calm hcalm hkept
  have hrest : item.rest = item.buf := by simp [LogItem.rest, hpos]
  have hne : item.buf ≠ [] := by
    obtain ⟨_, _, hne, _⟩ := hkept
    exact hne
  rw [hkept.not_batchable] at hready
  unfold flushWrite
  rw [if_pos hpos, hl, hrest]
  generalize upsgi_log_sink_prepare_batchable (bundledSinks kind) st.sinks (some l) = out
    at hready hcalm1 hhanded1
  obtain ⟨s1, ready⟩ := out
  subst hready
  -- a datagram logger is never batched
  simp only [Bool.false_eq_true, if_false, length_nil, Nat.not_lt_zero]
  rw [sink_write_kept hcalm1 hkept]
  refine ⟨_, _, rfl, ?_, ?_⟩
  · have hcalled := hcalm1.called l item.buf (Nat.le_refl item.buf.length)
    refine ⟨hcalled.reparsed, ?_, hcalled.returned⟩
    intro l'
    change (if l' = l then false else st.recovery_needed l') = false
    rw [hcalm1.flags l', ite_self]
  · intro l'
    rw [SinkLog.handed_called, hhanded1]
    simp [hne]

/-! ### The invariant -/

/-- The system when only records that keep their boundary were submitted. -/
structure KeptInv (kind : L → SinkKind) (sys : LogSys L (SinkLog L))
    (xs : List (Addr × LogItem L)) : Prop where
  handed : HandedWhole sys xs
  queued : ∀ x ∈ xs, RecordKept kind (x.2.logger, x.2.buf)
  waiting : ∀ record ∈ sys.ctl.waiting, RecordKept kind record
  calm : Calm sys.st.sinks sys.st.recovery_needed

theorem recordsFor_append (l : L) (xs ys : List (Record L)) :
    recordsFor l (xs ++ ys) = recordsFor l xs ++ recordsFor l ys := by
  simp [recordsFor]

theorem queuedRecords_append (l : L) (xs ys : List (LogItem L)) :
    queuedRecords l (xs ++ ys) = queuedRecords l xs ++ queuedRecords l ys := by
  simp [queuedRecords]

theorem queuedRecords_record (l : L) (record : Record L) :
    queuedRecords l [⟨record.1, record.2, 0⟩] = recordsFor l [record] := by
  unfold queuedRecords recordsFor
  by_cases h : record.1 = some l <;> simp [h]

theorem queuedRecords_cons (l : L) (item : LogItem L) (items : List (LogItem L)) :
    queuedRecords l (item :: items) =
      (if item.logger = some l then [item.buf] else []) ++ queuedRecords l items := by
  unfold queuedRecords
  by_cases h : item.logger = some l <;> simp [h]

section

variable {sys : LogSys L (SinkLog L)} {xs : List (Addr × LogItem L)} (h : KeptInv kind sys xs)
include h

/-- Queueing a record that was waiting. -/
theorem KeptInv.push (record : Record L) (hkept : RecordKept kind record) {ctl : Ctl L}
    {submitted : List (Record L)} (hctl : ∀ items, ctl.unhanded items = items)
    (hwait : ctl.waiting = []) (hconsume : ∀ written waiting, ctl ≠ .consuming written waiting)
    (hbal : ∀ l, sys.st.sinks.handed l ++ queuedRecords l (xs.map Prod.snd) ++
      recordsFor l [record] = recordsFor l submitted) :
    KeptInv kind { st := sys.push record, ctl := ctl, submitted := submitted }
      (xs ++ [(sys.st.queue.list.brk, ⟨record.1, record.2, 0⟩)]) := by
  refine ⟨⟨h.handed.queue.push _, ?_, ?_, ?_, h.handed.returned⟩, ?_, ?_, h.calm⟩
  · intro x hx
    rcases mem_append.mp hx with hx | hx
    · exact h.handed.whole x hx
    · obtain rfl := mem_singleton.mp hx
      rfl
  · intro l
    rw [hctl, hwait, ← hbal l, map_append, queuedRecords_append, map_cons, map_nil,
      queuedRecords_record]
    simp [recordsFor, LogSys.push]
  · intro written waiting hc
    exact absurd hc (hconsume written waiting)
  · intro x hx
    rcases mem_append.mp hx with hx | hx
    · exact h.queued x hx
    · obtain rfl := mem_singleton.mp hx
      exact hkept
  · intro r hr
    rw [hwait] at hr
    cases hr

/-- Only the control changes, between places where the queue and what waits are
    the same. -/
theorem KeptInv.goto {ctl : Ctl L} (hctl : ∀ items, ctl.unhanded items = sys.ctl.unhanded items)
    (hwait : ctl.waiting = sys.ctl.waiting)
    (hconsume : ∀ written waiting, ctl ≠ .consuming written waiting) :
    KeptInv kind { sys with ctl := ctl } xs := by
  refine ⟨⟨h.handed.queue, h.handed.whole, ?_, ?_, h.handed.returned⟩, h.queued, ?_, h.calm⟩
  · intro l
    rw [hctl, hwait]
    exact h.handed.balance l
  · intro written waiting hc
    exact absurd hc (hconsume written waiting)
  · intro record hrecord
    rw [hwait] at hrecord
    exact h.waiting record hrecord

end

/-! ### Steps -/

section steps

variable {kind : L → SinkKind} {sys sys' : LogSys L (SinkLog L)} {xs : List (Addr × LogItem L)}
variable {waiting : Option (Record L)}

theorem submit_preserves_kept {record : Record L} (hinv : KeptInv kind sys xs)
    (hkept : RecordKept kind record)
    (h : logStep (bundledSinks kind) sys (.submit record) = some sys') :
    ∃ ys, KeptInv kind sys' ys := by
  unfold logStep at h
  dsimp only at h
  split at h
  · next hidle =>
    have hbal : ∀ l, sys.st.sinks.handed l ++ queuedRecords l (xs.map Prod.snd) ++
        recordsFor l [record] = recordsFor l (sys.submitted ++ [record]) := by
      intro l
      have := hinv.handed.balance l
      simp only [hidle, Ctl.unhanded, Ctl.waiting] at this
      rw [recordsFor_append, ← this]
      simp [recordsFor]
    split at h
    · -- longer than the byte cap: queued at once
      cases h
      exact ⟨_, hinv.push record hkept (fun _ => rfl) rfl (by simp) hbal⟩
    · cases h
      refine ⟨xs, ⟨hinv.handed.queue, hinv.handed.whole, hbal, by simp, hinv.handed.returned⟩,
        hinv.queued, ?_, hinv.calm⟩
      intro r hr
      obtain rfl := mem_singleton.mp hr
      exact hkept
  · cases h

theorem flush_preserves_kept (hinv : KeptInv kind sys xs)
    (h : logStep (bundledSinks kind) sys .flush = some sys') : KeptInv kind sys' xs := by
  unfold logStep at h
  dsimp only at h
  split at h
  · next hidle =>
    cases h
    apply hinv.goto
    · intro items
      rw [hidle]
      rfl
    · rw [hidle]
      rfl
    · simp
  · cases h

/-- A round hands over the head of the queue. -/
theorem write_kept {a : Addr} {item : LogItem L} (hinv : KeptInv kind sys ((a, item) :: xs))
    (hctl : sys.ctl = .flushing waiting) :
    ∃ st, flushWrite (bundledSinks kind) sys.st item = (st, .count item.buf.length) ∧
      0 < item.buf.length ∧
      KeptInv kind { sys with st := st, ctl := .consuming item.buf.length waiting }
        ((a, item) :: xs) := by
  have hkept := hinv.queued (a, item) (by simp)
  have hpos := hinv.handed.whole (a, item) (by simp)
  obtain ⟨l, hl, hne, hk⟩ := hkept
  dsimp only at hl hne hk
  obtain ⟨sinks, flags, hwrite, hcalm, hhanded⟩ :=
    flushWrite_kept hinv.calm hl ⟨l, rfl, hne, hk⟩ hpos
  refine ⟨_, hwrite, length_pos_of_ne_nil hne, ⟨hinv.handed.queue, hinv.handed.whole, ?_, ?_,
    hcalm.returned⟩, hinv.queued, ?_, hcalm⟩
  · intro l'
    have hbal := hinv.handed.balance l'
    simp only [hctl, Ctl.unhanded, Ctl.waiting, map_cons, queuedRecords_cons, hl,
      Option.some.injEq] at hbal
    simp only [Ctl.unhanded, Ctl.waiting, map_cons, tail_cons]
    rw [hhanded l', ← hbal]
    simp
  · intro written waiting' hc
    obtain ⟨rfl, rfl⟩ := Ctl.consuming.inj hc
    exact ⟨item, xs.map Prod.snd, rfl, rfl⟩
  · intro record hrecord
    apply hinv.waiting
    rw [hctl]
    exact hrecord

/-- Consuming the count of a record removes that record. -/
theorem consume_kept {written : Nat} (hinv : KeptInv kind sys xs)
    (hctl : sys.ctl = .consuming written waiting) :
    ∃ ys, ys.length + 1 = xs.length ∧ KeptInv kind
      { sys with
        st := { sys.st with queue := upsgi_log_queue_consume_written sys.st.queue written }
        ctl := .flushing waiting } ys := by
  obtain ⟨item, items, hitems, rfl⟩ := hinv.handed.consumed written waiting hctl
  obtain ⟨ys, hys, hmap⟩ := consume_written_spec item.buf.length hinv.handed.queue
  have hmem : ∀ it ∈ item :: items, it.pos = 0 ∧ RecordKept kind (it.logger, it.buf) := by
    intro it hit
    rw [← hitems] at hit
    obtain ⟨x, hx, rfl⟩ := mem_map.mp hit
    exact ⟨hinv.handed.whole x hx, hinv.queued x hx⟩
  have hgone : consumeItems (item :: items) item.buf.length = items := by
    obtain ⟨hpos, hkept⟩ := hmem item (by simp)
    obtain ⟨_, _, hne, _⟩ := hkept
    have hrest : item.rest = item.buf := by simp [LogItem.rest, hpos]
    rw [← hrest] at hne ⊢
    exact consumeItems_head hne items
  rw [hitems, hgone] at hmap
  have hmem' : ∀ y ∈ ys, y.2.pos = 0 ∧ RecordKept kind (y.2.logger, y.2.buf) := by
    intro y hy
    apply hmem
    rw [← hmap]
    exact mem_cons_of_mem _ (mem_map_of_mem hy)
  refine ⟨ys, ?_, ⟨hys, fun y hy => (hmem' y hy).1, ?_, by simp, hinv.handed.returned⟩,
    fun y hy => (hmem' y hy).2, ?_, hinv.calm⟩
  · have h1 := congrArg List.length hmap
    have h2 := congrArg List.length hitems
    simp only [length_map, length_cons] at h1 h2
    omega
  · intro l
    have hbal := hinv.handed.balance l
    simp only [hctl, Ctl.unhanded, Ctl.waiting, hitems, tail_cons] at hbal
    simpa only [Ctl.unhanded, Ctl.waiting, hmap] using hbal
  · intro record hrecord
    apply hinv.waiting
    rw [hctl]
    exact hrecord

theorem tick_preserves_kept (hinv : KeptInv kind sys xs)
    (h : logTick (bundledSinks kind) sys = some sys') : ∃ ys, KeptInv kind sys' ys := by
  unfold logTick at h
  cases hctl : sys.ctl with
  | idle =>
    simp only [hctl] at h
    cases h
  | submitting record =>
    simp only [hctl] at h
    split at h
    · cases h
      have hkept : RecordKept kind record := hinv.waiting record (by simp [hctl, Ctl.waiting])
      refine ⟨_, hinv.push record hkept (fun _ => rfl) rfl (by simp) ?_⟩
      intro l
      have hbal := hinv.handed.balance l
      simpa only [hctl, Ctl.unhanded, Ctl.waiting] using hbal
    · cases h
      refine ⟨xs, hinv.goto ?_ ?_ (by simp)⟩
      · intro items
        rw [hctl]
        rfl
      · rw [hctl]
        rfl
  | flushing waiting =>
    simp only [hctl] at h
    cases xs with
    | nil =>
      -- the flush returns
      have hfirst : sys.st.queue.list.first = none := hinv.handed.queue.represents.first_eq
      rw [hfirst] at h
      cases waiting with
      | none | some record =>
        cases h
        refine ⟨[], hinv.goto ?_ ?_ (by simp)⟩
        · intro items
          rw [hctl]
          rfl
        · rw [hctl]
          rfl
    | cons x xs =>
      obtain ⟨a, item⟩ := x
      have hfirst : sys.st.queue.list.first = some item := hinv.handed.queue.represents.first_eq
      obtain ⟨st, hwrite, hlen, hinv'⟩ := write_kept hinv hctl
      rw [hfirst] at h
      dsimp only at h
      rw [hwrite] at h
      dsimp only at h
      rw [if_pos hlen] at h
      cases h
      exact ⟨_, hinv'⟩
  | consuming written waiting =>
    simp only [hctl, Option.some.injEq] at h
    subst h
    obtain ⟨ys, _, hys⟩ := consume_kept hinv hctl
    exact ⟨ys, hys⟩

/-! ### Whole runs -/

theorem run_preserves_kept {records_cap bytes_cap : Nat} {es : List (LogEvent L)}
    (hkept : ∀ e ∈ es, EventKept kind e)
    (hrun : Machine.run (logStep (bundledSinks kind))
      (LogSys.init SinkLog.fresh records_cap bytes_cap) es = some sys) :
    ∃ xs, KeptInv kind sys xs := by
  have hstart : ∃ xs, KeptInv kind (LogSys.init SinkLog.fresh records_cap bytes_cap) xs := by
    refine ⟨[], ⟨queueInv_empty _ _, by simp, ?_, ?_, ?_⟩, by simp, ?_, ⟨fun _ => rfl, fun _ => rfl,
      ?_⟩⟩
    · intro l
      rfl
    · nofun
    · nofun
    · nofun
    · nofun
  apply Machine.run_invariant (fun sys => ∃ xs, KeptInv kind sys xs) (EventKept kind) _ es _ sys
    hstart hkept hrun
  rintro s e s' ⟨xs, hinv⟩ he hstep
  cases e with
  | submit record => exact submit_preserves_kept hinv he hstep
  | flush => exact ⟨xs, flush_preserves_kept hinv hstep⟩
  | tick => exact tick_preserves_kept hinv hstep

/-- Two steps of a flush hand over a record and remove it. -/
theorem two_ticks_kept {x : Addr × LogItem L} (hinv : KeptInv kind sys (x :: xs))
    (hctl : sys.ctl = .flushing waiting) :
    ∃ sys' ys, (logStep (bundledSinks kind) sys .tick).bind
        (fun s => logStep (bundledSinks kind) s .tick) = some sys' ∧
      sys'.ctl = .flushing waiting ∧ sys'.submitted = sys.submitted ∧ ys.length = xs.length ∧
      KeptInv kind sys' ys := by
  obtain ⟨a, item⟩ := x
  have hfirst : sys.st.queue.list.first = some item := hinv.handed.queue.represents.first_eq
  obtain ⟨st, hwrite, hlen, hinv1⟩ := write_kept hinv hctl
  obtain ⟨ys, hys, hinv2⟩ := consume_kept hinv1 rfl
  refine ⟨_, ys, ?_, ?_, ?_, by simpa using hys, hinv2⟩
  · simp only [logStep, logTick, hctl, hfirst, hwrite, if_pos hlen, Option.bind_some]
  · rfl
  · rfl

/-- A flush that goes on hands over all that is queued. -/
theorem flush_drains_kept (hinv : KeptInv kind sys xs) (hctl : sys.ctl = .flushing waiting) :
    ∃ k sys', Machine.run (logStep (bundledSinks kind)) sys (List.replicate k .tick) = some sys' ∧
      sys'.ctl = .flushing waiting ∧ sys'.submitted = sys.submitted ∧ KeptInv kind sys' [] := by
  induction hn : xs.length generalizing sys xs with
  | zero =>
    obtain rfl := eq_nil_of_length_eq_zero hn
    exact ⟨0, sys, rfl, hctl, rfl, hinv⟩
  | succ n ih =>
    cases xs with
    | nil => cases hn
    | cons x xs =>
      obtain ⟨sys1, ys, hticks, hctl1, hsub1, hlen, hinv1⟩ := two_ticks_kept hinv hctl
      obtain ⟨k, sys2, hrun, hctl2, hsub2, hinv2⟩ := ih hinv1 hctl1 (by simp_all)
      refine ⟨k + 2, sys2, ?_, hctl2, hsub2.trans hsub1, hinv2⟩
      obtain ⟨s, hs, hs1⟩ := Option.bind_eq_some_iff.mp hticks
      simp only [Machine.run, replicate_succ, foldlM_cons, Option.bind_eq_bind, hs,
        Option.bind_some, hs1]
      exact hrun

/-- In every run that submits only records which keep their boundary, each
    record is handed to its sink exactly once and as a whole, nothing else is
    removed from the queue, and a flush goes on to hand over everything. -/
theorem datagram_records_handed_whole {records_cap bytes_cap : Nat} {es : List (LogEvent L)}
    (hkept : ∀ e ∈ es, EventKept kind e)
    (hrun : Machine.run (logStep (bundledSinks kind))
      (LogSys.init SinkLog.fresh records_cap bytes_cap) es = some sys) :
    (∃ xs, HandedWhole sys xs) ∧
    ∀ waiting, sys.ctl = .flushing waiting →
      ∃ k sys', Machine.run (logStep (bundledSinks kind)) sys (List.replicate k .tick) = some sys' ∧
        sys'.st.queue.list.head = none ∧
        ∀ l, sys'.st.sinks.handed l ++ recordsFor l waiting.toList =
          recordsFor l sys.submitted := by
  obtain ⟨xs, hinv⟩ := run_preserves_kept hkept hrun
  refine ⟨⟨xs, hinv.handed⟩, ?_⟩
  intro waiting hctl
  obtain ⟨k, sys', hticks, hctl', hsub, hinv'⟩ := flush_drains_kept hinv hctl
  refine ⟨k, sys', hticks, hinv'.handed.queue.represents.head_eq_none.mpr rfl, ?_⟩
  intro l
  have hbal := hinv'.handed.balance l
  rw [hctl', hsub] at hbal
  simpa [Ctl.unhanded, Ctl.waiting, queuedRecords] using hbal

end steps

/-- A socket logger without a prefix, and an rsyslog logger. -/
def datagramKind : Bool → SinkKind
  | true => .socket none
  | false => .rsyslog defaultRsyslog

/-- A record for each logger, and the start of a flush. -/
def datagramRun : List (LogEvent Bool) :=
  [.submit (some true, lit "hello"), .tick, .submit (some false, lit "hi"), .tick, .flush, .tick]

theorem datagram_records_handed_both :
    ∃ sys, Machine.run (logStep (bundledSinks datagramKind)) (LogSys.init SinkLog.fresh 8 4096)
      datagramRun = some sys ∧ ∃ xs, HandedWhole sys xs := by
  obtain ⟨sys, hrun⟩ := Option.isSome_iff_exists.mp (by decide +kernel :
    (Machine.run (logStep (bundledSinks datagramKind)) (LogSys.init SinkLog.fresh 8 4096)
      datagramRun).isSome = true)
  refine ⟨sys, hrun, (datagram_records_handed_whole ?_ hrun).1⟩
  intro e he
  simp only [datagramRun, mem_cons, not_mem_nil, or_false] at he
  rcases he with rfl | rfl | rfl | rfl | rfl | rfl
  · exact ⟨true, rfl, by decide, rfl⟩
  · trivial
  · refine ⟨false, rfl, by decide, ?_⟩
    exact ⟨by decide, by decide, by decide, by decide, .inr (by decide), by decide⟩
  · trivial
  · trivial
  · trivial

/-- Two records for a socket logger with a prefix, and a flush. -/
def prefixRun : List (LogEvent Unit) :=
  [.submit (some (), lit "hello"), .tick, .submit (some (), lit "world"), .tick, .flush, .tick,
    .tick, .tick, .tick]

/-- The count of the first datagram includes the prefix, so the first three
    bytes of the second record leave the queue without being sent. -/
theorem datagram_prefix_loses_bytes :
    ∃ sys, Machine.run (logStep (bundledSinks fun _ => .socket (some (lit "p: "))))
        (LogSys.init SinkLog.fresh 8 4096) prefixRun = some sys ∧
      sys.st.queue.list.head = none ∧
      sys.st.sinks.handed () = [lit "hello", lit "ld"] ∧
      ¬∃ xs, HandedWhole sys xs := by
  obtain ⟨sys, hrun⟩ := Option.isSome_iff_exists.mp (by decide +kernel :
    (Machine.run (logStep (bundledSinks fun _ => .socket (some (lit "p: "))))
      (LogSys.init SinkLog.fresh 8 4096) prefixRun).isSome = true)
  have hstate : (Machine.run (logStep (bundledSinks fun _ => .socket (some (lit "p: "))))
      (LogSys.init SinkLog.fresh 8 4096) prefixRun).map (fun sys => (sys.st.queue.list.head,
        sys.st.sinks.handed (), recordsFor () sys.ctl.waiting, recordsFor () sys.submitted)) =
      some (none, [lit "hello", lit "ld"], [], [lit "hello", lit "world"]) := by
    decide +kernel
  rw [hrun] at hstate
  simp only [Option.map_some, Option.some.injEq, Prod.mk.injEq] at hstate
  obtain ⟨hhead, hhanded, hwait, hsub⟩ := hstate
  refine ⟨sys, hrun, hhead, hhanded, ?_⟩
  rintro ⟨xs, h⟩
  obtain rfl := h.queue.represents.head_eq_none.mp hhead
  have hbal := h.balance ()
  have hnone : sys.ctl.unhanded ([] : List (LogItem Unit)) = [] := by
    cases sys.ctl <;> rfl
  rw [map_nil, hnone, hhanded, hwait, hsub] at hbal
  nomatch hbal

end Upsgi
