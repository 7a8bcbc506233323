import Upsgi.Async.Loop

/-! # The cores of the async loop are conserved

    Where a core is can be read off six flags, and each function of the loop changes the
    flags of one core only.  In a run without the four situations in which the loop loses
    track of a core, every core is on the stack of unused cores exactly once, or it has an
    open connection and the loop will come back to it.
-/

namespace Upsgi

open List Function

namespace AsyncLoop

variable {n : Nat} {s s' s₁ s₂ : AsyncLoop n} {c : Fin n}

/-! ### Where a core is -/

/-- The places of a core between two steps. -/
inductive Placed : CoreFlags → Prop where
  | free : Placed ⟨true, false, false, false, false, false⟩
  | reading (timed : Bool) : Placed ⟨false, false, true, false, timed, true⟩
  | running : Placed ⟨false, true, false, false, false, true⟩
  | waiting {waits timed : Bool} (h : waits = true ∨ timed = true) :
      Placed ⟨false, false, false, waits, timed, true⟩

/-- What holds of the tables in every state: no core is listed twice, each entry is known
    to its core, and two open connections have different descriptors. -/
structure Tables (s : AsyncLoop n) : Prop where
  unused : s.unused.Nodup
  runqueue : s.async_runqueue.Nodup
  proto : ∀ fd c, s.async_proto_fd_table fd = some c → (s.core c).fd = fd
  waiting : ∀ fd c, s.async_waiting_fd_table fd = some c → fd ∈ (s.core c).waiting_fds
  timers : s.rb_async_timeouts.Nodup
  timer : ∀ value c, (value, c) ∈ s.rb_async_timeouts ↔ (s.core c).async_timeout = some value
  apart : ∀ c c', (s.core c).connected = true → (s.core c').connected = true →
    (s.core c).fd = (s.core c').fd → c = c'

namespace Tables

/-! What holds of a table still holds when neither the table nor the fields that it is compared
    with have changed. -/

section

variable (h : Tables s)
include h

theorem proto_of (htable : s'.async_proto_fd_table = s.async_proto_fd_table)
    (hfd : ∀ c, (s'.core c).fd = (s.core c).fd) :
    ∀ fd c, s'.async_proto_fd_table fd = some c → (s'.core c).fd = fd := by
  intro fd c hproto
  rw [hfd]
  exact h.proto fd c (htable ▸ hproto)

theorem waiting_of (htable : s'.async_waiting_fd_table = s.async_waiting_fd_table)
    (hfds : ∀ c, (s'.core c).waiting_fds = (s.core c).waiting_fds) :
    ∀ fd c, s'.async_waiting_fd_table fd = some c → fd ∈ (s'.core c).waiting_fds := by
  intro fd c hwait
  rw [hfds]
  exact h.waiting fd c (htable ▸ hwait)

theorem timer_of (htable : s'.rb_async_timeouts = s.rb_async_timeouts)
    (htimeout : ∀ c, (s'.core c).async_timeout = (s.core c).async_timeout) :
    ∀ value c, (value, c) ∈ s'.rb_async_timeouts ↔ (s'.core c).async_timeout = some value := by
  intro value c
  rw [htable, htimeout]
  exact h.timer value c

/-- No connection is opened, and those that stay open keep their descriptor. -/
theorem apart_of (hcore : ∀ c, (s'.core c).connected = true →
      (s.core c).connected = true ∧ (s'.core c).fd = (s.core c).fd) :
    ∀ c c', (s'.core c).connected = true → (s'.core c').connected = true →
      (s'.core c).fd = (s'.core c').fd → c = c' := by
  intro c c' hc hc' hsame
  obtain ⟨hc, hfd⟩ := hcore c hc
  obtain ⟨hc', hfd'⟩ := hcore c' hc'
  rw [hfd, hfd'] at hsame
  exact h.apart c c' hc hc' hsame

/-- A core that is not reading has no entry at all. -/
theorem no_entry (hreading : (s.flags c).reading = false) (fd : Nat) :
    s.async_proto_fd_table fd ≠ some c := by
  intro heq
  have hfd := h.proto fd c heq
  exact of_decide_eq_false hreading (hfd.symm ▸ heq)

end

end Tables

/-- A change of the core `c` after which it has the flags `f`. -/
structure Changes (c : Fin n) (s s' : AsyncLoop n) (f : CoreFlags) : Prop where
  tables : Tables s'
  others : ∀ c', c' ≠ c → s'.flags c' = s.flags c'
  own : s'.flags c = f

theorem Changes.refl (h : Tables s) (c : Fin n) : Changes c s s (s.flags c) :=
  ⟨h, fun _ _ => rfl, rfl⟩

theorem Changes.trans {f₁ f₂ : CoreFlags} (h₁ : Changes c s s₁ f₁) (h₂ : Changes c s₁ s₂ f₂) :
    Changes c s s₂ f₂ where
  tables := h₂.tables
  others := fun c' hne => (h₂.others c' hne).trans (h₁.others c' hne)
  own := h₂.own

/-- Every core has a place. -/
structure Placement (s : AsyncLoop n) : Prop where
  tables : Tables s
  placed : ∀ c, Placed (s.flags c)

theorem Changes.placement {f : CoreFlags} (h : Changes c s s' f) (hs : Placement s)
    (hf : Placed f) : Placement s' where
  tables := h.tables
  placed := by
    intro c'
    by_cases hc : c' = c
    · rw [hc, h.own]
      exact hf
    · rw [h.others c' hc]
      exact hs.placed c'

/-! ### What each function changes -/

section Modify

variable {f : AsyncCore → AsyncCore}

theorem modify_core_self (s : AsyncLoop n) (c : Fin n) (f : AsyncCore → AsyncCore) :
    (s.modify c f).core c = f (s.core c) :=
  update_self _ _ _

theorem modify_core_of_ne {c' : Fin n} (hne : c' ≠ c) (s : AsyncLoop n)
    (f : AsyncCore → AsyncCore) : (s.modify c f).core c' = s.core c' :=
  update_of_ne hne _ _

theorem flags_modify_of_ne {c' : Fin n} (hne : c' ≠ c) (s : AsyncLoop n)
    (f : AsyncCore → AsyncCore) : (s.modify c f).flags c' = s.flags c' := by
  unfold flags
  rw [modify_core_of_ne hne]
  rfl

/-- A field of every core is read through the core that was written. -/
theorem modify_field {α : Type} (s : AsyncLoop n) (c : Fin n) {f : AsyncCore → AsyncCore}
    (field : AsyncCore → α) (h : field (f (s.core c)) = field (s.core c)) (c' : Fin n) :
    field ((s.modify c f).core c') = field (s.core c') := by
  by_cases hc : c' = c
  · rw [hc, modify_core_self, h]
  · rw [modify_core_of_ne hc]

theorem modify_connected (s : AsyncLoop n) (c : Fin n) {f : AsyncCore → AsyncCore}
    (hfd : (f (s.core c)).fd = (s.core c).fd)
    (hconnected : (f (s.core c)).connected = (s.core c).connected) (c' : Fin n)
    (hc' : ((s.modify c f).core c').connected = true) :
    (s.core c').connected = true ∧ ((s.modify c f).core c').fd = (s.core c').fd :=
  ⟨(modify_field s c AsyncCore.connected hconnected c').symm.trans hc',
    modify_field s c AsyncCore.fd hfd c'⟩

/-- Fields of the application's interface do not matter. -/
theorem changes_modify (h : Tables s) (hfd : (f (s.core c)).fd = (s.core c).fd)
    (hwaiting : (f (s.core c)).waiting_fds = (s.core c).waiting_fds)
    (htimeout : (f (s.core c)).async_timeout = (s.core c).async_timeout)
    (hconnected : (f (s.core c)).connected = (s.core c).connected) :
    Changes c s (s.modify c f) (s.flags c) where
  tables :=
    { h with
      proto := h.proto_of rfl (modify_field s c AsyncCore.fd hfd)
      waiting := h.waiting_of rfl (modify_field s c AsyncCore.waiting_fds hwaiting)
      timer := h.timer_of rfl (modify_field s c AsyncCore.async_timeout htimeout)
      apart := h.apart_of (modify_connected s c hfd hconnected) }
  others := fun c' hne => flags_modify_of_ne hne s f
  own := by
    unfold flags
    rw [modify_core_self, hfd, hwaiting, htimeout, hconnected]
    rfl

end Modify

section Lists

/-- The top of the stack is taken. -/
theorem changes_take {unused : List (Fin n)} (h : Tables s) (hs : s.unused = c :: unused) :
    Changes c s { s with unused := unused } { s.flags c with unused := false } where
  tables :=
    { h with unused := (nodup_cons.mp (hs ▸ h.unused)).2 }
  others := fun c' hne => by
    have hmem : c' ∈ s.unused ↔ c' ∈ unused := by
      rw [hs, mem_cons, or_iff_right hne]
    unfold flags
    simp only [hmem]
  own := by
    have hnot : c ∉ unused := (nodup_cons.mp (hs ▸ h.unused)).1
    unfold flags
    simp only [hnot, decide_false]

theorem changes_release (h : Tables s) (hc : (s.flags c).unused = false) :
    Changes c s (s.release c) { s.flags c with unused := true } where
  tables :=
    { h with unused := nodup_cons.mpr ⟨of_decide_eq_false hc, h.unused⟩ }
  others := fun c' hne => by
    unfold flags release
    simp only [mem_cons, or_iff_right hne]
  own := by
    unfold flags release
    simp only [mem_cons, true_or, decide_true]

theorem changes_push (h : Tables s) (c : Fin n) :
    Changes c s (s.runqueue_push c) { s.flags c with queued := true } := by
  unfold runqueue_push
  by_cases hc : c ∈ s.async_runqueue
  · rw [if_pos hc]
    have hself : { s.flags c with queued := true } = s.flags c := by
      unfold flags
      simp only [hc, decide_true]
    rw [hself]
    exact Changes.refl h c
  · rw [if_neg hc]
    refine ⟨{ h with runqueue := ?_ }, fun c' hne => ?_, ?_⟩
    · exact List.Nodup.append h.runqueue (nodup_singleton c)
        (disjoint_singleton.mpr hc)
    · unfold flags
      simp only [mem_append, mem_singleton, hne, or_false]
    · unfold flags
      simp only [mem_append, mem_singleton, or_true, decide_true]

theorem changes_remove (h : Tables s) (c : Fin n) :
    Changes c s (s.runqueue_remove c) { s.flags c with queued := false } where
  tables :=
    { h with runqueue := h.runqueue.erase c }
  others := fun c' hne => by
    unfold flags runqueue_remove
    simp only [mem_erase_of_ne hne]
  own := by
    unfold flags runqueue_remove
    simp only [h.runqueue.not_mem_erase, decide_false]

end Lists

section Waits

theorem changes_delTimer (h : Tables s) (c : Fin n) :
    Changes c s (s.delTimer c) { s.flags c with timed := false } := by
  unfold delTimer
  cases htimeout : (s.core c).async_timeout with
  | none =>
    have hself : { s.flags c with timed := false } = s.flags c := by
      unfold flags
      simp only [htimeout, Option.isSome_none]
    rw [hself]
    exact Changes.refl h c
  | some value =>
    refine ⟨⟨h.unused, h.runqueue, ?_, ?_, h.timers.erase _, ?_, ?_⟩, fun c' hne => ?_, ?_⟩
    · exact h.proto_of rfl (modify_field _ c AsyncCore.fd rfl)
    · exact h.waiting_of rfl (modify_field _ c AsyncCore.waiting_fds rfl)
    · intro value' c'
      show (value', c') ∈ s.rb_async_timeouts.erase (value, c) ↔ _
      rw [h.timers.mem_erase_iff, h.timer]
      by_cases hc : c' = c
      · rw [hc, modify_core_self, htimeout]
        constructor
        · rintro ⟨hne, heq⟩
          exact absurd (congrArg (·, c) (Option.some.inj heq).symm) hne
        · nofun
      · rw [modify_core_of_ne hc]
        exact ⟨And.right, fun heq => ⟨fun hpair => hc (congrArg Prod.snd hpair), heq⟩⟩
    · exact h.apart_of (modify_connected _ c rfl rfl)
    · exact flags_modify_of_ne hne _ _
    · unfold flags
      rw [modify_core_self]
      rfl

/-- The request no longer waits for anything.  Entries of others may go, but no others
    come. -/
theorem changes_reset (h : Tables s) (c : Fin n) :
    Changes c s (s.async_reset_request c) { s.flags c with waits := false, timed := false } := by
  have htimer := changes_delTimer h c
  have hflags := htimer.own
  refine htimer.trans ?_
  unfold async_reset_request
  generalize s.delTimer c = s₁ at htimer hflags
  have h₁ := htimer.tables
  refine ⟨⟨h₁.unused, h₁.runqueue, ?_, ?_, h₁.timers, ?_, ?_⟩, fun c' hne => ?_, ?_⟩
  · exact h₁.proto_of rfl (modify_field _ c AsyncCore.fd rfl)
  · intro fd c' hwait
    have hnot : fd ∉ (s₁.core c).waiting_fds := by
      intro hmem
      have hnone : (if fd ∈ (s₁.core c).waiting_fds then none else s₁.async_waiting_fd_table fd) =
          some c' := hwait
      rw [if_pos hmem] at hnone
      nomatch hnone
    have hold : s₁.async_waiting_fd_table fd = some c' := by
      rw [← hwait]
      exact (if_neg hnot).symm
    by_cases hc : c' = c
    · exact absurd (hc ▸ h₁.waiting fd c' hold) hnot
    · rw [modify_core_of_ne hc]
      exact h₁.waiting fd c' hold
  · exact h₁.timer_of rfl (modify_field _ c AsyncCore.async_timeout rfl)
  · exact h₁.apart_of (modify_connected _ c rfl rfl)
  · exact flags_modify_of_ne hne _ _
  · unfold flags at hflags ⊢
    rw [modify_core_self]
    simp only [CoreFlags.mk.injEq] at hflags ⊢
    exact ⟨hflags.1, hflags.2.1, hflags.2.2.1, by simp, hflags.2.2.2.2.1, hflags.2.2.2.2.2⟩

/-- A timer changes only the fields of the timer. -/
theorem add_timeout_field {α : Type} (field : AsyncCore → α)
    (hready : ∀ core, field { core with async_ready_fd := false } = field core)
    (htimeout : ∀ core value, field { core with async_timeout := value } = field core)
    (s : AsyncLoop n) (now : Nat) (c : Fin n) (timeout : Nat) (c' : Fin n) :
    field ((s.async_add_timeout now c timeout).core c') = field (s.core c') := by
  have hready' : field ((s.modify c ({ · with async_ready_fd := false })).core c') =
      field (s.core c') := modify_field s c field (hready _) c'
  unfold async_add_timeout
  dsimp only
  rw [← hready']
  split
  · exact modify_field _ c field (htimeout _ _) c'
  · rfl

theorem add_timeout_proto (s : AsyncLoop n) (now : Nat) (c : Fin n) (timeout : Nat) :
    (s.async_add_timeout now c timeout).async_proto_fd_table = s.async_proto_fd_table := by
  unfold async_add_timeout
  dsimp only
  split <;> rfl

theorem delTimer_proto (s : AsyncLoop n) (c : Fin n) :
    (s.delTimer c).async_proto_fd_table = s.async_proto_fd_table := by
  unfold delTimer
  split <;> rfl

theorem reset_proto (s : AsyncLoop n) (c : Fin n) :
    (s.async_reset_request c).async_proto_fd_table = s.async_proto_fd_table :=
  s.delTimer_proto c

/-- A timer may be set. -/
theorem changes_timeout (h : Tables s) (now : Nat) (c : Fin n) (timeout : Nat) :
    ∃ timed, Changes c s (s.async_add_timeout now c timeout) { s.flags c with timed := timed } := by
  have hready : Changes c s (s.modify c ({ · with async_ready_fd := false })) (s.flags c) :=
    changes_modify h rfl rfl rfl rfl
  unfold async_add_timeout
  generalize s.modify c ({ · with async_ready_fd := false }) = s₁ at hready
  by_cases hset : 0 < timeout ∧ (s₁.core c).async_timeout = none
  · rw [if_pos hset]
    refine ⟨true, hready.trans ?_⟩
    have h₁ := hready.tables
    have hflags := hready.own
    refine ⟨⟨h₁.unused, h₁.runqueue, ?_, ?_, ?_, ?_, ?_⟩, fun c' hne => ?_, ?_⟩
    · exact h₁.proto_of rfl (modify_field _ c AsyncCore.fd rfl)
    · exact h₁.waiting_of rfl (modify_field _ c AsyncCore.waiting_fds rfl)
    · refine List.Nodup.append h₁.timers (nodup_singleton _) ?_
      rw [disjoint_singleton, h₁.timer, hset.2]
      nofun
    · intro value c'
      show (value, c') ∈ s₁.rb_async_timeouts ++ [(now + timeout, c)] ↔ _
      rw [mem_append, mem_singleton, h₁.timer]
      by_cases hc : c' = c
      · rw [hc, modify_core_self, hset.2]
        constructor
        · rintro (heq | hpair)
          · nomatch heq
          · exact congrArg (fun p => some p.1) hpair.symm
        · exact fun heq => .inr (congrArg (·, c) (Option.some.inj heq).symm)
      · rw [modify_core_of_ne hc, or_iff_left (fun hpair => hc (congrArg Prod.snd hpair))]
    · exact h₁.apart_of (modify_connected _ c rfl rfl)
    · exact flags_modify_of_ne hne _ _
    · rw [← hflags]
      unfold flags
      rw [modify_core_self]
      rfl
  · rw [if_neg hset]
    exact ⟨(s.flags c).timed, hready⟩

/-- The request waits for one more descriptor. -/
theorem changes_addFd (h : Tables s) (c : Fin n) (fd : Nat) :
    Changes c s (s.modify c fun core => { core with waiting_fds := core.waiting_fds ++ [fd] })
      { s.flags c with waits := true } := by
  refine ⟨⟨h.unused, h.runqueue, ?_, ?_, h.timers, ?_, ?_⟩, fun c' hne => ?_, ?_⟩
  · exact h.proto_of rfl (modify_field _ c AsyncCore.fd rfl)
  · intro fd' c' hwait
    have hmem := h.waiting fd' c' hwait
    by_cases hc : c' = c
    · rw [hc, modify_core_self]
      exact mem_append_left _ (hc ▸ hmem)
    · rw [modify_core_of_ne hc]
      exact hmem
  · exact h.timer_of rfl (modify_field _ c AsyncCore.async_timeout rfl)
  · exact h.apart_of (modify_connected _ c rfl rfl)
  · exact flags_modify_of_ne hne _ _
  · refine CoreFlags.ext rfl rfl ?_ ?_ ?_ ?_
    · show decide (s.async_proto_fd_table _ = some c) = decide _
      rw [modify_field _ c AsyncCore.fd rfl]
    · refine decide_eq_true ?_
      rw [modify_core_self]
      exact append_ne_nil_of_right_ne_nil _ (cons_ne_nil fd [])
    · exact congrArg Option.isSome (modify_field _ c AsyncCore.async_timeout rfl c)
    · exact modify_field _ c AsyncCore.connected rfl c

/-- The table of waiting descriptors does not say where a core is. -/
theorem changes_waitingEntry {fd : Nat} (h : Tables s) (hfd : fd ∈ (s.core c).waiting_fds) :
    Changes c s
      { s with async_waiting_fd_table := Function.update s.async_waiting_fd_table fd (some c) }
      (s.flags c) := by
  refine ⟨{ h with waiting := ?_ }, fun _ _ => rfl, rfl⟩
  intro fd' c' hwait
  by_cases hsame : fd' = fd
  · rw [hsame] at hwait ⊢
    have hc : c = c' :=
      Option.some.inj ((update_self fd _ s.async_waiting_fd_table).symm.trans hwait)
    exact hc ▸ hfd
  · exact h.waiting fd' c'
      ((update_of_ne hsame _ s.async_waiting_fd_table).symm.trans hwait)

/-- Whatever an application waits for, only that changes. -/
theorem changes_wait (h : Tables s) (now : Nat) (c : Fin n) (w : AsyncWait) :
    ∃ waits timed,
      Changes c s (wait now c s w) { s.flags c with waits := waits, timed := timed } := by
  cases w with
  | reset => exact ⟨false, false, changes_reset h c⟩
  | timeout timeout =>
    obtain ⟨timed, hchanges⟩ := changes_timeout h now c timeout
    exact ⟨(s.flags c).waits, timed, hchanges⟩
  | fd fd timeout =>
    unfold wait
    dsimp only
    have hadd := changes_addFd h c fd
    have hfd : fd ∈ ((s.modify c fun core =>
        { core with waiting_fds := core.waiting_fds ++ [fd] }).core c).waiting_fds := by
      rw [modify_core_self]
      exact mem_append_right _ mem_cons_self
    generalize (s.modify c fun core => { core with waiting_fds := core.waiting_fds ++ [fd] }) = s₁
      at hadd hfd
    -- the timer, if there is one, leaves the descriptors alone
    have htimer : ∃ timed, Changes c s₁
        (if 0 < timeout then s₁.async_add_timeout now c timeout else s₁)
        { s₁.flags c with timed := timed } ∧
        fd ∈ ((if 0 < timeout then s₁.async_add_timeout now c timeout else s₁).core c).waiting_fds := by
      by_cases hpos : 0 < timeout
      · rw [if_pos hpos]
        obtain ⟨timed, hchanges⟩ := changes_timeout hadd.tables now c timeout
        refine ⟨timed, hchanges, ?_⟩
        rw [add_timeout_field AsyncCore.waiting_fds (fun _ => rfl) (fun _ _ => rfl)]
        exact hfd
      · rw [if_neg hpos]
        exact ⟨(s₁.flags c).timed, Changes.refl hadd.tables c, hfd⟩
    obtain ⟨timed, htimed, hfd₂⟩ := htimer
    have hentry := changes_waitingEntry htimed.tables hfd₂
    rw [htimed.own, hadd.own] at hentry
    exact ⟨true, timed, hadd.trans (htimed.trans hentry)⟩

theorem changes_waits (h : Tables s) (now : Nat) (c : Fin n) (ws : List AsyncWait) :
    ∃ waits timed,
      Changes c s (ws.foldl (wait now c) s) { s.flags c with waits := waits, timed := timed } := by
  induction ws generalizing s with
  | nil => exact ⟨(s.flags c).waits, (s.flags c).timed, Changes.refl h c⟩
  | cons w ws ih =>
    obtain ⟨_, _, hfirst⟩ := changes_wait h now c w
    obtain ⟨waits, timed, hrest⟩ := ih hfirst.tables
    refine ⟨waits, timed, hfirst.trans ?_⟩
    rw [hfirst.own] at hrest
    exact hrest

end Waits

section Connections

variable {fd : Nat}

theorem close_core (h : (s.core c).connected = true → (s.core c).fd ≠ fd) :
    (s.close fd).core c = s.core c := by
  show (if (s.core c).fd = fd then { s.core c with connected := false } else s.core c) = s.core c
  by_cases hsame : (s.core c).fd = fd
  · rw [if_pos hsame]
    cases hconnected : (s.core c).connected with
    | true => exact absurd hsame (h hconnected)
    | false => rw [← hconnected]
  · rw [if_neg hsame]

/-- A descriptor is closed on which at most the core `c` has its connection. -/
theorem changes_close (h : Tables s) (hfd : (s.core c).fd = fd)
    (hothers : ∀ c', c' ≠ c → (s.core c').connected = true → (s.core c').fd ≠ fd) :
    Changes c s (s.close fd) { s.flags c with connected := false } := by
  have hcore : ∀ c', c' ≠ c → (s.close fd).core c' = s.core c' :=
    fun c' hne => close_core (hothers c' hne)
  have hself : (s.close fd).core c = { s.core c with connected := false } := if_pos hfd
  have hfield : ∀ {α : Type} (field : AsyncCore → α),
      field { s.core c with connected := false } = field (s.core c) →
      ∀ c', field ((s.close fd).core c') = field (s.core c') := by
    intro α field heq c'
    by_cases hc : c' = c
    · rw [hc, hself, heq]
    · rw [hcore c' hc]
  refine ⟨⟨h.unused, h.runqueue, ?_, ?_, h.timers, ?_, ?_⟩, fun c' hne => ?_, ?_⟩
  · exact h.proto_of rfl (hfield AsyncCore.fd rfl)
  · exact h.waiting_of rfl (hfield AsyncCore.waiting_fds rfl)
  · exact h.timer_of rfl (hfield AsyncCore.async_timeout rfl)
  · refine h.apart_of fun c' hc' => ?_
    have hne : c' ≠ c := by
      rintro rfl
      rw [hself] at hc'
      nomatch hc'
    rw [hcore c' hne] at hc' ⊢
    exact ⟨hc', rfl⟩
  · unfold flags
    rw [hcore c' hne]
    rfl
  · unfold flags
    rw [hself]
    rfl

/-- A core that is not reading gets a new descriptor on which there is no connection. -/
theorem changes_fd (h : Tables s) (hreading : (s.flags c).reading = false)
    (hfresh : ∀ c', (s.core c').connected = true → (s.core c').fd ≠ fd) (connected : Bool) :
    Changes c s (s.modify c ({ · with fd := fd, connected := connected }))
      { s.flags c with connected := connected } := by
  have hproto := h.no_entry hreading
  refine ⟨⟨h.unused, h.runqueue, ?_, ?_, h.timers, ?_, ?_⟩, fun c' hne => ?_, ?_⟩
  · intro fd' c' heq
    have hne : c' ≠ c := fun hc => hproto fd' (hc ▸ heq)
    rw [modify_core_of_ne hne]
    exact h.proto fd' c' heq
  · exact h.waiting_of rfl (modify_field _ c AsyncCore.waiting_fds rfl)
  · exact h.timer_of rfl (modify_field _ c AsyncCore.async_timeout rfl)
  · intro c₁ c₂ hc₁ hc₂ hsame
    by_cases h₁ : c₁ = c
    · by_cases h₂ : c₂ = c
      · rw [h₁, h₂]
      · rw [h₁, modify_core_self, modify_core_of_ne h₂] at hsame
        rw [modify_core_of_ne h₂] at hc₂
        exact absurd hsame.symm (hfresh c₂ hc₂)
    · rw [modify_core_of_ne h₁] at hc₁ hsame
      by_cases h₂ : c₂ = c
      · rw [h₂, modify_core_self] at hsame
        exact absurd hsame (hfresh c₁ hc₁)
      · rw [modify_core_of_ne h₂] at hc₂ hsame
        exact h.apart c₁ c₂ hc₁ hc₂ hsame
  · exact flags_modify_of_ne hne _ _
  · refine CoreFlags.ext rfl rfl ?_ ?_ ?_ ?_
    · exact (decide_eq_false (hproto _)).trans hreading.symm
    · exact congrArg (fun fds => decide (fds ≠ [])) (modify_field _ c AsyncCore.waiting_fds rfl c)
    · exact congrArg Option.isSome (modify_field _ c AsyncCore.async_timeout rfl c)
    · show ((s.modify c _).core c).connected = connected
      rw [modify_core_self]

section

variable (h : Tables s) (hfd : (s.core c).fd = fd)
    (hfree : ∀ c', c' ≠ c → s.async_proto_fd_table fd ≠ some c')
include h hfd hfree

/-- The entry under the descriptor of a core is set to the core or cleared, when it was not that
    of another core. -/
theorem changes_protoEntry {entry : Option (Fin n)} (hentry : ∀ c', entry = some c' → c' = c) :
    Changes c s { s with async_proto_fd_table := Function.update s.async_proto_fd_table fd entry }
      { s.flags c with reading := decide (entry = some c) } := by
  refine ⟨{ h with proto := ?_ }, fun c' hne => ?_, ?_⟩
  · intro fd' c' heq
    by_cases hsame : fd' = fd
    · rw [hsame] at heq ⊢
      rw [hentry c' ((update_self fd _ s.async_proto_fd_table).symm.trans heq)]
      exact hfd
    · exact h.proto fd' c' ((update_of_ne hsame _ s.async_proto_fd_table).symm.trans heq)
  · refine CoreFlags.ext rfl rfl (decide_eq_decide.mpr ?_) rfl rfl rfl
    show Function.update s.async_proto_fd_table fd entry (s.core c').fd = some c' ↔ _
    by_cases hsame : (s.core c').fd = fd
    · rw [hsame, update_self]
      exact ⟨fun heq => absurd (hentry c' heq) hne, fun heq => absurd heq (hfree c' hne)⟩
    · rw [update_of_ne hsame]
  · refine CoreFlags.ext rfl rfl (decide_eq_decide.mpr ?_) rfl rfl rfl
    show Function.update s.async_proto_fd_table fd entry (s.core c).fd = some c ↔ _
    rw [hfd, update_self]

/-- The core enters the protocol table under its descriptor. -/
theorem changes_setProto :
    Changes c s
      { s with async_proto_fd_table := Function.update s.async_proto_fd_table fd (some c) }
      { s.flags c with reading := true } := by
  have hset := changes_protoEntry h hfd hfree (fun c' heq => (Option.some.inj heq).symm)
  rwa [decide_eq_true rfl] at hset

end

/-- The core leaves the protocol table. -/
theorem changes_clearProto (h : Tables s) (hproto : s.async_proto_fd_table fd = some c) :
    Changes c s { s with async_proto_fd_table := Function.update s.async_proto_fd_table fd none }
      { s.flags c with reading := false } := by
  refine changes_protoEntry h (h.proto fd c hproto) ?_ nofun
  intro c' hne heq
  exact hne (Option.some.inj (heq.symm.trans hproto))

end Connections

/-! ### Where the loop loses a core -/

/-- No timer is due of a core that still reads its request.  Such a core would be run, and
    stay in the protocol table. -/
def ExpireOk (now : Nat) (s : AsyncLoop n) : Prop :=
  ∀ value c, (value, c) ∈ s.rb_async_timeouts → value ≤ now → (s.flags c).reading = false

/-- The event takes no core for a signal, and closes no connection that a core still has
    but does not wait for. -/
def EventOk (s : AsyncLoop n) : AsyncEvent → Prop
  | .signal => s.unused = []
  | .connection _ _ _ => True
  | .ready fd _ => s.async_proto_fd_table fd = none → s.async_waiting_fd_table fd = none →
      ∀ c, (s.core c).connected = true → (s.core c).fd ≠ fd

def EventsOk (socket_timeout now : Nat) : AsyncLoop n → List AsyncEvent → Prop
  | _, [] => True
  | s, e :: es => EventOk s e ∧
      ∀ s', handleEvent socket_timeout now s e = some s' → EventsOk socket_timeout now s' es

/-- The timers and events of a round are such, and no request has to wait for its client
    while it is closed. -/
structure RoundKeeps (socket_timeout : Nat) (s : AsyncLoop n) (r : AsyncRound n) : Prop where
  first : s.async_runqueue = [] → ExpireOk r.now s
  idle : ∀ s₁, s.expireFirst r.now = some s₁ → r.events = some [] → ExpireOk r.later s₁
  events : ∀ s₁, s.expireFirst r.now = some s₁ →
    EventsOk socket_timeout r.later s₁ (r.events.getD [])
  closing : ∀ c, (r.app c).closing = []

/-! ### Timers -/

theorem min_rb_timer_mem {timers : List (Nat × Fin n)} {timer : Nat × Fin n}
    (h : upsgi_min_rb_timer timers = some timer) : timer ∈ timers := by
  induction timers generalizing timer with
  | nil => nomatch h
  | cons first timers ih =>
    unfold upsgi_min_rb_timer at h
    cases hbest : upsgi_min_rb_timer timers with
    | none =>
      rw [hbest] at h
      exact Option.some.inj h ▸ mem_cons_self
    | some best =>
      rw [hbest] at h
      dsimp only at h
      split at h
      · exact Option.some.inj h ▸ mem_cons_self
      · exact mem_cons_of_mem first (Option.some.inj h ▸ ih hbest)

/-- The timer of a request is deleted, and no other. -/
theorem reset_timers {value : Nat} (htimeout : (s.core c).async_timeout = some value) :
    (s.async_reset_request c).rb_async_timeouts = s.rb_async_timeouts.erase (value, c) := by
  unfold async_reset_request delTimer
  rw [htimeout]
  rfl

theorem push_timers (s : AsyncLoop n) (c : Fin n) :
    (s.runqueue_push c).rb_async_timeouts = s.rb_async_timeouts := by
  unfold runqueue_push
  split <;> rfl

/-- A round of the expiry. -/
def expireCore (s : AsyncLoop n) (c : Fin n) : AsyncLoop n :=
  ((s.modify c ({ · with async_timed_out := true })).async_reset_request c).runqueue_push c

theorem expireCore_timers {value : Nat} (htimeout : (s.core c).async_timeout = some value) :
    (s.expireCore c).rb_async_timeouts = s.rb_async_timeouts.erase (value, c) := by
  unfold expireCore
  rw [push_timers]
  refine reset_timers ?_
  rw [modify_core_self]
  exact htimeout

/-- A request whose timer is due goes to the run queue, when it is not reading. -/
theorem changes_expireCore {value : Nat} (hs : Placement s)
    (htimeout : (s.core c).async_timeout = some value) (hreading : (s.flags c).reading = false) :
    Changes c s (s.expireCore c) ⟨false, true, false, false, false, true⟩ := by
  have htimed : (s.flags c).timed = true := congrArg Option.isSome htimeout
  have hflag : Changes c s (s.modify c ({ · with async_timed_out := true })) (s.flags c) :=
    changes_modify hs.tables rfl rfl rfl rfl
  have hreset := changes_reset hflag.tables c
  have hpush := changes_push hreset.tables c
  rw [hreset.own, hflag.own] at hpush
  have hplaced := hs.placed c
  have hall := (hflag.trans hreset).trans hpush
  generalize s.flags c = f at hplaced htimed hreading hall
  cases hplaced with
  | free | running => nomatch htimed
  | reading timed => nomatch hreading
  | waiting h => exact hall

/-- The expiry returns: each round deletes a timer. -/
theorem expireRounds_placement (now k : Nat) (hs : Placement s) (hok : ExpireOk now s)
    (hk : s.rb_async_timeouts.length < k) :
    ∃ s', expireRounds now k s = some s' ∧ Placement s' := by
  induction k generalizing s with
  | zero => nomatch hk
  | succ k ih =>
    unfold expireRounds
    cases hmin : upsgi_min_rb_timer s.rb_async_timeouts with
    | none => exact ⟨s, rfl, hs⟩
    | some timer =>
      obtain ⟨value, c⟩ := timer
      dsimp only
      by_cases hdue : value ≤ now
      · rw [if_pos hdue]
        have hmem := min_rb_timer_mem hmin
        have htimeout := (hs.tables.timer value c).mp hmem
        have hchanges := changes_expireCore hs htimeout (hok value c hmem hdue)
        have htimers := expireCore_timers htimeout
        refine ih (hchanges.placement hs .running) ?_ ?_
        · intro value' c' hmem' hdue'
          by_cases hc : c' = c
          · rw [hc]
            exact congrArg CoreFlags.reading hchanges.own
          · have hold : (value', c') ∈ s.rb_async_timeouts :=
              mem_of_mem_erase (htimers ▸ hmem')
            exact (congrArg CoreFlags.reading (hchanges.others c' hc)).trans
              (hok value' c' hold hdue')
        · have hlength := length_erase_of_mem hmem
          have hpos := length_pos_of_mem hmem
          show (s.expireCore c).rb_async_timeouts.length < k
          rw [htimers]
          omega
      · rw [if_neg hdue]
        exact ⟨s, rfl, hs⟩

theorem expire_timeouts_placement (now : Nat) (hs : Placement s) (hok : ExpireOk now s) :
    ∃ s', s.async_expire_timeouts now = some s' ∧ Placement s' :=
  expireRounds_placement now _ hs hok (Nat.lt_succ_self _)

/-! ### Events -/

theorem release_placement (hs : Placement s) {f : CoreFlags} (h : Changes c s s' f)
    (hf : f = ⟨false, false, false, false, false, false⟩) : Placement (s'.release c) := by
  have hown : s'.flags c = ⟨false, false, false, false, false, false⟩ := h.own.trans hf
  have hrelease := changes_release h.tables (congrArg CoreFlags.unused hown)
  refine (h.trans hrelease).placement hs ?_
  rw [hown]
  exact .free

/-- A core of the stack has no connection and waits for nothing. -/
theorem unused_flags (hs : Placement s) (hc : c ∈ s.unused) :
    s.flags c = ⟨true, false, false, false, false, false⟩ := by
  have hunused : (s.flags c).unused = true := decide_eq_true hc
  have hplaced := hs.placed c
  generalize s.flags c = f at hplaced hunused
  cases hplaced with
  | free => rfl
  | reading timed | running | waiting h => nomatch hunused

/-- A core of the protocol table has its connection there. -/
theorem reading_flags {fd : Nat} (hs : Placement s) (hproto : s.async_proto_fd_table fd = some c) :
    ∃ timed, s.flags c = ⟨false, false, true, false, timed, true⟩ := by
  have hreading : (s.flags c).reading = true := by
    refine decide_eq_true ?_
    rw [hs.tables.proto fd c hproto]
    exact hproto
  have hplaced := hs.placed c
  generalize s.flags c = f at hplaced hreading
  cases hplaced with
  | free | running | waiting h => nomatch hreading
  | reading timed => exact ⟨timed, rfl⟩

theorem protoEvent_placement (socket_timeout now : Nat) {fd : Nat} (parsed : ParserStatus)
    (hs : Placement s) (hproto : s.async_proto_fd_table fd = some c) :
    Placement (protoEvent socket_timeout now s fd c parsed) := by
  obtain ⟨timed, hflags⟩ := reading_flags hs hproto
  have hreset := changes_reset hs.tables c
  have hproto₁ : (s.async_reset_request c).async_proto_fd_table fd = some c := by
    rw [reset_proto]
    exact hproto
  rw [hflags] at hreset
  unfold protoEvent
  generalize s.async_reset_request c = s₁ at hreset hproto₁
  cases parsed with
  | complete =>
    have hclear := changes_clearProto hreset.tables hproto₁
    have hstatus : Changes c
        { s₁ with async_proto_fd_table := Function.update s₁.async_proto_fd_table fd none }
        ({ s₁ with async_proto_fd_table :=
            Function.update s₁.async_proto_fd_table fd none }.modify c
          ({ · with async_status := 0 })) _ := changes_modify hclear.tables rfl rfl rfl rfl
    have hpush := changes_push hstatus.tables c
    refine (((hreset.trans hclear).trans hstatus).trans hpush).placement hs ?_
    rw [hstatus.own, hclear.own, hreset.own]
    exact .running
  | again =>
    obtain ⟨timed, htimer⟩ := changes_timeout hreset.tables now c socket_timeout
    refine (hreset.trans htimer).placement hs ?_
    rw [hreset.own]
    exact .reading timed
  | failed =>
    have hclear := changes_clearProto hreset.tables hproto₁
    have hclose := changes_close hclear.tables (hreset.tables.proto fd c hproto₁) (by
      intro c' hne hconnected hsame
      have hown : (s₁.flags c).connected = true := congrArg CoreFlags.connected hreset.own
      exact hne (hreset.tables.apart c' c hconnected hown
        (hsame.trans (hreset.tables.proto fd c hproto₁).symm)))
    refine release_placement hs ((hreset.trans hclear).trans hclose) ?_
    rw [hclear.own, hreset.own]

theorem appEvent_placement {fd : Nat} (hs : Placement s)
    (hwait : s.async_waiting_fd_table fd = some c) : Placement (appEvent s fd c) := by
  have hwaits : (s.flags c).waits = true :=
    decide_eq_true (ne_nil_of_mem (hs.tables.waiting fd c hwait))
  have hreset := changes_reset hs.tables c
  have hready : Changes c (s.async_reset_request c) ((s.async_reset_request c).modify c
      ({ · with async_ready_fd := true, async_last_ready_fd := fd })) _ :=
    changes_modify hreset.tables rfl rfl rfl rfl
  have hpush := changes_push hready.tables c
  refine ((hreset.trans hready).trans hpush).placement hs ?_
  rw [hready.own, hreset.own]
  have hplaced := hs.placed c
  generalize s.flags c = f at hplaced hwaits
  cases hplaced with
  | free | reading timed | running => nomatch hwaits
  | waiting h => exact .running

theorem close_of_none {fd : Nat} (h : ∀ c, (s.core c).connected = true → (s.core c).fd ≠ fd) :
    s.close fd = s := by
  have hcore : (s.close fd).core = s.core := funext fun c => close_core (h c)
  calc s.close fd = { s with core := (s.close fd).core } := rfl
    _ = { s with core := s.core } := by rw [hcore]

/-- The core that was on the stack has a connection now. -/
theorem async_recv_placement (socket_timeout now : Nat) {unused : List (Fin n)} {fd : Nat}
    (do_not_add_to_async_queue : Bool) (hs : Placement s) (hunused : s.unused = c :: unused)
    (hfresh : ∀ c', (s.core c').connected = true → (s.core c').fd ≠ fd) :
    Placement (wsgi_req_async_recv socket_timeout now { s with unused := unused } c fd
      do_not_add_to_async_queue) := by
  have hflags := unused_flags hs (hunused ▸ mem_cons_self)
  have htake := changes_take hs.tables hunused
  rw [hflags] at htake
  have hfd := changes_fd htake.tables (congrArg CoreFlags.reading htake.own) hfresh true
  rw [htake.own] at hfd
  have hall := htake.trans hfd
  unfold wsgi_req_async_recv
  have hcore : ((({ s with unused := unused } : AsyncLoop n).modify c
      ({ · with fd := fd, connected := true })).core c).fd = fd := by
    rw [modify_core_self]
  -- nobody else has an entry for the new descriptor
  have hproto : ∀ c', c' ≠ c → (({ s with unused := unused } : AsyncLoop n).modify c
      ({ · with fd := fd, connected := true })).async_proto_fd_table fd ≠ some c' := by
    intro c' _ heq
    obtain ⟨timed, hreading⟩ := reading_flags hs heq
    exact hfresh c' (congrArg CoreFlags.connected hreading) (hs.tables.proto fd c' heq)
  generalize (({ s with unused := unused } : AsyncLoop n).modify c
      ({ · with fd := fd, connected := true })) = s₁ at hall hcore hproto
  cases do_not_add_to_async_queue with
  | true =>
    rw [if_pos rfl]
    have hstatus : Changes c s₁ (s₁.modify c ({ · with async_status := 1 })) _ :=
      changes_modify hall.tables rfl rfl rfl rfl
    have hpush := changes_push hstatus.tables c
    refine ((hall.trans hstatus).trans hpush).placement hs ?_
    rw [hstatus.own, hall.own]
    exact .running
  | false =>
    rw [if_neg nofun]
    obtain ⟨timed, htimer⟩ := changes_timeout hall.tables now c socket_timeout
    have hfd₂ : ((s₁.async_add_timeout now c socket_timeout).core c).fd = fd := by
      rw [add_timeout_field AsyncCore.fd (fun _ => rfl) (fun _ _ => rfl)]
      exact hcore
    have hproto₂ : ∀ c', c' ≠ c →
        (s₁.async_add_timeout now c socket_timeout).async_proto_fd_table fd ≠ some c' := by
      rw [add_timeout_proto]
      exact hproto
    generalize s₁.async_add_timeout now c socket_timeout = s₂ at htimer hfd₂ hproto₂
    have hset := changes_setProto htimer.tables hfd₂ hproto₂
    have hstatus : Changes c
        { s₂ with async_proto_fd_table := Function.update s₂.async_proto_fd_table fd (some c) }
        ({ s₂ with async_proto_fd_table :=
            Function.update s₂.async_proto_fd_table fd (some c) }.modify c
          ({ · with async_status := 1 })) _ := changes_modify hset.tables rfl rfl rfl rfl
    refine (((hall.trans htimer).trans hset).trans hstatus).placement hs ?_
    rw [hset.own, htimer.own, hall.own]
    exact .reading timed

/-- A core on the stack has no connection, so that its descriptor does not matter. -/
theorem refused_placement {fd : Nat} (hs : Placement s) (hc : c ∈ s.unused)
    (hfresh : ∀ c', (s.core c').connected = true → (s.core c').fd ≠ fd) :
    Placement (s.modify c ({ · with fd := fd })) := by
  have hflags := unused_flags hs hc
  have hconnected : (s.core c).connected = false := congrArg CoreFlags.connected hflags
  have hsame : s.modify c ({ · with fd := fd }) =
      s.modify c ({ · with fd := fd, connected := false }) := by
    unfold modify
    rw [← hconnected]
  rw [hsame]
  refine (changes_fd hs.tables (congrArg CoreFlags.reading hflags) hfresh false).placement hs ?_
  rw [hflags]
  exact .free

theorem handleEvent_placement {socket_timeout now : Nat} {e : AsyncEvent} (hs : Placement s)
    (hok : EventOk s e) (hstep : handleEvent socket_timeout now s e = some s') : Placement s' := by
  cases e with
  | signal =>
    unfold handleEvent at hstep
    have hnone : s.unused = [] := hok
    rw [hnone] at hstep
    exact Option.some.inj hstep ▸ hs
  | connection accepted do_not_add_to_async_queue added =>
    unfold handleEvent at hstep
    cases hunused : s.unused with
    | nil =>
      rw [hunused] at hstep
      exact Option.some.inj hstep ▸ hs
    | cons c unused =>
      rw [hunused] at hstep
      cases accepted with
      | none => exact Option.some.inj hstep ▸ hs
      | some fd =>
        dsimp only at hstep
        by_cases hopen : ∃ c, (s.core c).connected = true ∧ (s.core c).fd = fd
        · rw [if_pos hopen] at hstep
          nomatch hstep
        · rw [if_neg hopen] at hstep
          have hfresh : ∀ c', (s.core c').connected = true → (s.core c').fd ≠ fd :=
            fun c' hc' hfd => hopen ⟨c', hc', hfd⟩
          by_cases hrefused : do_not_add_to_async_queue = false ∧ added = false
          · rw [if_pos hrefused] at hstep
            exact Option.some.inj hstep ▸
              refused_placement hs (hunused ▸ mem_cons_self) hfresh
          · rw [if_neg hrefused] at hstep
            exact Option.some.inj hstep ▸ async_recv_placement socket_timeout now _ hs hunused hfresh
  | ready fd parsed =>
    unfold handleEvent at hstep
    dsimp only at hstep
    cases hproto : s.async_proto_fd_table fd with
    | some c =>
      rw [hproto] at hstep
      exact Option.some.inj hstep ▸ protoEvent_placement socket_timeout now parsed hs hproto
    | none =>
      rw [hproto] at hstep
      cases hwait : s.async_waiting_fd_table fd with
      | some c =>
        rw [hwait] at hstep
        exact Option.some.inj hstep ▸ appEvent_placement hs hwait
      | none =>
        rw [hwait] at hstep
        rw [close_of_none (hok hproto hwait)] at hstep
        exact Option.some.inj hstep ▸ hs

theorem handleEvents_placement {socket_timeout now : Nat} {es : List AsyncEvent}
    (hs : Placement s) (hok : EventsOk socket_timeout now s es)
    (hrun : es.foldlM (handleEvent socket_timeout now) s = some s') : Placement s' := by
  induction es generalizing s with
  | nil => exact Option.some.inj hrun ▸ hs
  | cons e es ih =>
    obtain ⟨s₁, hfirst, hrest⟩ := Option.bind_eq_some_iff.mp hrun
    exact ih (handleEvent_placement hs hok.1 hfirst) (hok.2 s₁ hfirst) hrest

/-! ### The run queue -/

/-- The request is cleared when nothing refers to it. -/
theorem changes_clear (h : Tables s) (hreading : (s.flags c).reading = false)
    (hwaits : (s.flags c).waits = false) (htimed : (s.flags c).timed = false) :
    Changes c s (s.modify c fun _ => {}) { s.flags c with connected := false } := by
  have hproto := h.no_entry hreading
  have hnone : (s.core c).waiting_fds = [] := not_not.mp (of_decide_eq_false hwaits)
  have htimeout : (s.core c).async_timeout = none := Option.not_isSome_iff_eq_none.mp
    (fun hsome => Bool.noConfusion (hsome.symm.trans htimed))
  refine ⟨⟨h.unused, h.runqueue, ?_, ?_, h.timers, ?_, ?_⟩, fun c' hne => ?_, ?_⟩
  · intro fd c' heq
    have hne : c' ≠ c := fun hc => hproto fd (hc ▸ heq)
    rw [modify_core_of_ne hne]
    exact h.proto fd c' heq
  · intro fd c' heq
    have hmem := h.waiting fd c' heq
    have hne : c' ≠ c := by
      rintro rfl
      rw [hnone] at hmem
      nomatch hmem
    rw [modify_core_of_ne hne]
    exact hmem
  · exact h.timer_of rfl (modify_field s c AsyncCore.async_timeout htimeout.symm)
  · refine h.apart_of fun c' hc' => ?_
    have hne : c' ≠ c := by
      rintro rfl
      rw [modify_core_self] at hc'
      nomatch hc'
    rw [modify_core_of_ne hne] at hc' ⊢
    exact ⟨hc', rfl⟩
  · exact flags_modify_of_ne hne _ _
  · refine CoreFlags.ext rfl rfl ?_ ?_ ?_ ?_
    · exact (decide_eq_false (hproto _)).trans hreading.symm
    · rw [flags, modify_core_self]
      exact hwaits.symm
    · rw [flags, modify_core_self]
      exact htimed.symm
    · rw [flags, modify_core_self]

section

variable (now : Nat) (call : AppCall) (h : Tables s) (hclosing : call.closing = [])
    (hflags : s.flags c = ⟨false, true, false, false, false, true⟩)
include now call h hclosing hflags

/-- A running request is over: its core is on the stack, and still in the run queue. -/
theorem close_request_changes :
    Changes c s ((s.upsgi_close_request now c call).release c)
      ⟨true, true, false, false, false, false⟩ := by
  have hconnected : (s.core c).connected = true := congrArg CoreFlags.connected hflags
  -- the connection may be open still, in an offload thread
  have hclose : ∃ connected,
      Changes c s (if call.fd_closed then s else s.close (s.core c).fd)
        ⟨false, true, false, false, false, connected⟩ := by
    cases call.fd_closed with
    | true =>
      exact ⟨true, hflags ▸ Changes.refl h c⟩
    | false =>
      have hchanges := changes_close h rfl (fun c' hne hc' hsame =>
        hne (h.apart c' c hc' hconnected hsame))
      rw [hflags] at hchanges
      exact ⟨false, hchanges⟩
  obtain ⟨connected, hclose⟩ := hclose
  unfold upsgi_close_request
  rw [hclosing]
  dsimp only [foldl_nil]
  generalize (if call.fd_closed then s else s.close (s.core c).fd) = s₁ at hclose
  have hclear := changes_clear hclose.tables (congrArg CoreFlags.reading hclose.own)
    (congrArg CoreFlags.waits hclose.own) (congrArg CoreFlags.timed hclose.own)
  rw [hclose.own] at hclear
  have hrelease := changes_release hclear.tables (congrArg CoreFlags.unused hclear.own)
  rw [hclear.own] at hrelease
  exact (hclose.trans hclear).trans hrelease

theorem schedule_to_req_changes :
    (Changes c s (s.async_schedule_to_req now c call) ⟨true, true, false, false, false, false⟩ ∧
      ((s.async_schedule_to_req now c call).core c).async_status = 0) ∨
    (∃ waits timed,
      Changes c s (s.async_schedule_to_req now c call) ⟨false, true, false, waits, timed, true⟩ ∧
      0 < ((s.async_schedule_to_req now c call).core c).async_status) := by
  obtain ⟨waits, timed, hwaits⟩ := changes_waits h now c call.waits
  rw [hflags] at hwaits
  have hstatus : Changes c (call.waits.foldl (wait now c) s)
      ((call.waits.foldl (wait now c) s).modify c ({ · with async_status := call.status })) _ :=
    changes_modify hwaits.tables rfl rfl rfl rfl
  rw [hwaits.own] at hstatus
  have hvalue : (((call.waits.foldl (wait now c) s).modify c
      ({ · with async_status := call.status })).core c).async_status = call.status := by
    rw [modify_core_self]
  unfold async_schedule_to_req
  generalize (call.waits.foldl (wait now c) s).modify c ({ · with async_status := call.status }) = s₁
    at hstatus hvalue
  by_cases hover : call.status ≤ 0
  · rw [if_pos hover]
    have hreset := changes_reset hstatus.tables c
    rw [hstatus.own] at hreset
    have hclosed := close_request_changes now call hreset.tables hclosing hreset.own
    refine .inl ⟨((hwaits.trans hstatus).trans hreset).trans hclosed, ?_⟩
    unfold upsgi_close_request release
    rw [modify_core_self]
  · rw [if_neg hover]
    exact .inr ⟨waits, timed, hwaits.trans hstatus, by omega⟩

end

theorem runRequest_changes (now : Nat) (app : Fin n → AppCall) (h : Tables s)
    (hclosing : (app c).closing = [])
    (hflags : s.flags c = ⟨false, true, false, false, false, true⟩) :
    ∃ f, Changes c s (runRequest now app s c) f ∧ Placed f := by
  unfold runRequest
  rcases schedule_to_req_changes now (app c) h hclosing hflags with
    ⟨hchanges, hstatus⟩ | ⟨waits, timed, hchanges, hstatus⟩
  · have hremove := changes_remove hchanges.tables c
    rw [if_pos (.inl (by omega))]
    refine ⟨_, hchanges.trans hremove, ?_⟩
    rw [hchanges.own]
    exact .free
  · generalize s.async_schedule_to_req now c (app c) = s₁ at hchanges hstatus
    have hwaits : waits = decide ((s₁.core c).waiting_fds ≠ []) :=
      (congrArg CoreFlags.waits hchanges.own).symm
    have htimed : timed = (s₁.core c).async_timeout.isSome :=
      (congrArg CoreFlags.timed hchanges.own).symm
    have hwaiting : ((s₁.core c).waiting_fds ≠ [] ∨ (s₁.core c).async_timeout ≠ none) ↔
        (waits = true ∨ timed = true) := by
      rw [hwaits, htimed, decide_eq_true_iff, Option.isSome_iff_ne_none]
    by_cases hany : waits = true ∨ timed = true
    · have hremove := changes_remove hchanges.tables c
      rw [if_pos (.inr (hwaiting.mpr hany))]
      refine ⟨_, hchanges.trans hremove, ?_⟩
      rw [hchanges.own]
      exact .waiting hany
    · rw [if_neg (fun hleft => hleft.elim (by omega) (fun hleft => hany (hwaiting.mp hleft)))]
      obtain ⟨hnone, hno⟩ := not_or.mp hany
      rw [Bool.not_eq_true] at hnone hno
      rw [hnone, hno] at hchanges
      exact ⟨_, hchanges, .running⟩

theorem queued_flags (hs : Placement s) (hc : c ∈ s.async_runqueue) :
    s.flags c = ⟨false, true, false, false, false, true⟩ := by
  have hqueued : (s.flags c).queued = true := decide_eq_true hc
  have hplaced := hs.placed c
  generalize s.flags c = f at hplaced hqueued
  cases hplaced with
  | free | reading timed | waiting h => nomatch hqueued
  | running => rfl

/-- The requests of the run queue are run one after the other; those behind are still in it
    when their turn comes. -/
theorem runQueue_placement (now : Nat) (app : Fin n → AppCall) (cs : List (Fin n))
    (hs : Placement s) (hclosing : ∀ c, (app c).closing = []) (hnodup : cs.Nodup)
    (hcs : ∀ c ∈ cs, c ∈ s.async_runqueue) : Placement (cs.foldl (runRequest now app) s) := by
  induction cs generalizing s with
  | nil => exact hs
  | cons c cs ih =>
    obtain ⟨hnot, hnodup⟩ := nodup_cons.mp hnodup
    obtain ⟨hfirst, hrest⟩ := forall_mem_cons.mp hcs
    obtain ⟨f, hchanges, hf⟩ := runRequest_changes now app hs.tables (hclosing c)
      (queued_flags hs hfirst)
    refine ih (hchanges.placement hs hf) hnodup ?_
    intro c' hc'
    have hne : c' ≠ c := fun heq => hnot (heq ▸ hc')
    have hsame := congrArg CoreFlags.queued (hchanges.others c' hne)
    exact of_decide_eq_true (hsame.trans (decide_eq_true (hrest c' hc')))

/-! ### Runs -/

theorem init_placement (n : Nat) : Placement (asyncInit n) where
  tables :=
    { unused := nodup_reverse.mpr (nodup_finRange n)
      runqueue := nodup_nil
      proto := nofun
      waiting := nofun
      timers := nodup_nil
      timer := fun _ _ => ⟨nofun, nofun⟩
      apart := nofun }
  placed := by
    intro c
    have hflags : (asyncInit n).flags c = ⟨true, false, false, false, false, false⟩ :=
      CoreFlags.ext (decide_eq_true (mem_reverse.mpr (mem_finRange c))) rfl rfl rfl rfl rfl
    rw [hflags]
    exact .free

theorem async_loop_placement {socket_timeout : Nat} {r : AsyncRound n} (hs : Placement s)
    (hok : RoundKeeps socket_timeout s r) (hstep : async_loop socket_timeout s r = some s') :
    Placement s' := by
  obtain ⟨s₁, hfirst, hstep⟩ := Option.bind_eq_some_iff.mp hstep
  obtain ⟨s₂, hidle, hstep⟩ := Option.bind_eq_some_iff.mp hstep
  obtain ⟨s₃, hevents, hstep⟩ := Option.bind_eq_some_iff.mp hstep
  have hs₁ : Placement s₁ := by
    have hexpire := hfirst
    unfold expireFirst at hexpire
    by_cases hempty : s.async_runqueue = []
    · rw [if_pos hempty] at hexpire
      obtain ⟨t, heq, ht⟩ := expire_timeouts_placement r.now hs (hok.first hempty)
      exact Option.some.inj (heq.symm.trans hexpire) ▸ ht
    · rw [if_neg hempty] at hexpire
      exact Option.some.inj hexpire ▸ hs
  have hs₃ : Placement s₃ := by
    have hevents₁ := hok.events s₁ hfirst
    unfold expireIdle at hidle
    by_cases hnone : r.events = some []
    · rw [if_pos hnone] at hidle
      obtain ⟨t, heq, ht⟩ := expire_timeouts_placement r.later hs₁ (hok.idle s₁ hfirst hnone)
      rw [hnone] at hevents
      exact Option.some.inj hevents ▸ Option.some.inj (heq.symm.trans hidle) ▸ ht
    · rw [if_neg hnone] at hidle
      cases hidle
      exact handleEvents_placement hs₁ hevents₁ hevents
  cases hstep
  exact runQueue_placement r.later r.app _ hs₃ hok.closing hs₃.tables.runqueue (fun _ hc => hc)

theorem reachable_placement {socket_timeout : Nat}
    (h : Machine.ReachableVia (async_loop socket_timeout) (RoundKeeps socket_timeout) (asyncInit n)
      s) : Placement s :=
  h.invariant Placement (init_placement n) (fun _ _ _ hs hok hstep => async_loop_placement hs hok hstep)

/-- The core has a connection that has not ended, and the loop has it where the connection
    is read, run or waits. -/
def Bound (s : AsyncLoop n) (c : Fin n) : Prop :=
  (s.core c).connected = true ∧
    (s.async_proto_fd_table (s.core c).fd = some c ∨ (s.core c).waiting_fds ≠ [] ∨
      (s.core c).async_timeout ≠ none ∨ c ∈ s.async_runqueue)

/-- Each core is on the stack once or bound, and all are on the stack when no connection is
    left. -/
structure Conserved (s : AsyncLoop n) : Prop where
  once : ∀ c, s.unused.count c = 1 ∧ ¬Bound s c ∨ s.unused.count c = 0 ∧ Bound s c
  all : (∀ c, (s.core c).connected = false) → s.unused.Perm (List.finRange n)

theorem bound_iff (s : AsyncLoop n) (c : Fin n) :
    Bound s c ↔ (s.flags c).connected = true ∧ ((s.flags c).reading = true ∨
      (s.flags c).waits = true ∨ (s.flags c).timed = true ∨ (s.flags c).queued = true) := by
  unfold Bound flags
  simp only [decide_eq_true_iff, Option.isSome_iff_ne_none]

theorem Placement.conserved (hs : Placement s) : Conserved s where
  once := by
    intro c
    have hplaced := hs.placed c
    have hunused : (s.flags c).unused = decide (c ∈ s.unused) := rfl
    rw [bound_iff]
    generalize s.flags c = f at hplaced hunused
    cases hplaced with
    | free =>
      refine .inl ⟨count_eq_one_of_mem hs.tables.unused (of_decide_eq_true hunused.symm), ?_⟩
      exact fun hbound => nomatch hbound.1
    | reading timed =>
      exact .inr ⟨count_eq_zero.mpr (of_decide_eq_false hunused.symm), rfl, .inl rfl⟩
    | running =>
      exact .inr ⟨count_eq_zero.mpr (of_decide_eq_false hunused.symm), rfl, .inr (.inr (.inr rfl))⟩
    | waiting h =>
      refine .inr ⟨count_eq_zero.mpr (of_decide_eq_false hunused.symm), rfl, .inr ?_⟩
      exact h.elim .inl (fun htimed => .inr (.inl htimed))
  all := by
    intro hended
    refine (perm_ext_iff_of_nodup hs.tables.unused (nodup_finRange n)).mpr fun c => ?_
    have hplaced := hs.placed c
    have hunused : (s.flags c).unused = decide (c ∈ s.unused) := rfl
    have hconnected : (s.flags c).connected = false := hended c
    generalize s.flags c = f at hplaced hunused hconnected
    cases hplaced with
    | free => exact ⟨fun _ => mem_finRange c, fun _ => of_decide_eq_true hunused.symm⟩
    | reading timed | running | waiting h => nomatch hconnected

end AsyncLoop

end Upsgi
