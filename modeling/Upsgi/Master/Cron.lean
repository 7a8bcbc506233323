import Mathlib

/-! # Cron tasks

    The master polls its cron tasks (`upsgi_manage_command_cron` in `core/cron.c`).  A task is
    started when the local time matches its specification and 60 seconds have passed since its
    last start.

    A minute has 60 seconds too, so no task is started twice in one.  But a start late in a minute
    puts off the next one, and when no poll comes late enough in the next minute, the task is
    not started in it.

    The broken-down time of a minute, which `localtime` gives for each of its seconds, is
    arbitrary.
-/

namespace Upsgi

open List

/-! ### Functions -/

/-- The fields of a `struct tm` that are looked at, with the months from 1 on. -/
structure CronTm where
  tm_min : Int
  tm_hour : Int
  tm_mday : Int
  tm_mon : Int
  tm_wday : Int

structure CronSpec where
  minute : Int
  hour : Int
  day : Int
  month : Int
  week : Int

/-- What a field is compared with: a negative one stands for an interval. -/
def ucField (field tm uc : Int) : Int :=
  if field < 0 ∧ tm.tmod field.natAbs = 0 then tm else uc

def upsgi_cron_task_needs_execution (tm : CronTm) (spec : CronSpec) : Bool :=
  let uc_minute := ucField spec.minute tm.tm_min spec.minute
  let uc_hour := ucField spec.hour tm.tm_hour spec.hour
  let uc_month := ucField spec.month tm.tm_mon spec.month
  let uc_day := ucField spec.day tm.tm_mday spec.day
  -- 7 is Sunday as well
  let uc_week := ucField spec.week tm.tm_wday (if spec.week = 7 then 0 else spec.week)
  -- day of the month and day of the week are alternatives
  if 0 ≤ spec.day ∧ 0 ≤ spec.week then
    tm.tm_min = uc_minute ∧ tm.tm_hour = uc_hour ∧ tm.tm_mon = uc_month ∧
      (tm.tm_mday = uc_day ∨ tm.tm_wday = uc_week)
  else
    tm.tm_min = uc_minute ∧ tm.tm_hour = uc_hour ∧ tm.tm_mon = uc_month ∧
      tm.tm_mday = uc_day ∧ tm.tm_wday = uc_week

/-- A task; `starts` are the times at which its command was run. -/
structure Cron where
  spec : CronSpec
  unique : Bool
  pid : Int := -1
  last_job : Nat := 0
  starts : List Nat := []

/-- A poll: its time, and the process that a command which is run in it gets. -/
structure CronPoll where
  now : Nat
  pid : Int

/-- The command is run. -/
def Cron.start (c : Cron) (poll : CronPoll) : Cron :=
  { c with
    pid := if 0 ≤ poll.pid then poll.pid else c.pid
    last_job := poll.now
    starts := c.starts ++ [poll.now] }

/-- What a poll does with a task. -/
def manageCron (calendar : Nat → CronTm) (c : Cron) (poll : CronPoll) : Cron :=
  if c.unique ∧ 0 ≤ c.pid then c
  else if upsgi_cron_task_needs_execution (calendar (poll.now / 60)) c.spec ∧
      c.last_job + 60 ≤ poll.now then c.start poll
  else c

def upsgi_manage_command_cron (calendar : Nat → CronTm) (crons : List Cron) (poll : CronPoll) :
    List Cron :=
  crons.map (manageCron calendar · poll)

/-! ### Polls of one task -/

/-- The task after some polls. -/
def cronRun (calendar : Nat → CronTm) (c : Cron) (polls : List CronPoll) : Cron :=
  polls.foldl (manageCron calendar) c

variable {calendar : Nat → CronTm} {c : Cron} {polls : List CronPoll} {minute : Nat}

/-- The polls of a list of tasks are the polls of each of them. -/
theorem manage_command_cron_runs (calendar : Nat → CronTm) (crons : List Cron)
    (polls : List CronPoll) :
    polls.foldl (upsgi_manage_command_cron calendar) crons =
      crons.map (cronRun calendar · polls) := by
  induction polls generalizing crons with
  | nil => exact (map_id crons).symm
  | cons poll polls ih =>
    rw [foldl_cons, ih, upsgi_manage_command_cron, map_map]
    rfl

/-- A task that is not unique has been polled. -/
inductive Polled (calendar : Nat → CronTm) (c : Cron) (poll : CronPoll) : Cron → Prop where
  | started (h : upsgi_cron_task_needs_execution (calendar (poll.now / 60)) c.spec ∧
      c.last_job + 60 ≤ poll.now) : Polled calendar c poll (c.start poll)
  | passed (h : ¬(upsgi_cron_task_needs_execution (calendar (poll.now / 60)) c.spec ∧
      c.last_job + 60 ≤ poll.now)) : Polled calendar c poll c

theorem manageCron_polled (calendar : Nat → CronTm) (hunique : c.unique = false)
    (poll : CronPoll) : Polled calendar c poll (manageCron calendar c poll) := by
  unfold manageCron
  rw [if_neg (by simp [hunique])]
  split_ifs with h
  · exact .started h
  · exact .passed h

/-! ### Minutes -/

/-- The starts in a minute. -/
def startsIn (c : Cron) (minute : Nat) : List Nat :=
  c.starts.filter (· / 60 = minute)

/-- The polls before a minute. -/
def pollsBefore (polls : List CronPoll) (minute : Nat) : List CronPoll :=
  polls.takeWhile (·.now / 60 < minute)

theorem startsIn_start (c : Cron) (poll : CronPoll) (minute : Nat) :
    (startsIn (c.start poll) minute).length =
      (startsIn c minute).length + if poll.now / 60 = minute then 1 else 0 := by
  unfold startsIn Cron.start
  rw [filter_append, length_append, filter_singleton]
  split_ifs <;> simp_all

theorem pollsBefore_eq_nil (h : ∀ poll ∈ polls, minute ≤ poll.now / 60) :
    pollsBefore polls minute = [] := by
  cases polls with
  | nil => rfl
  | cons poll polls =>
    have hle := h poll mem_cons_self
    exact takeWhile_cons_of_neg (by simpa using hle)

/-- Run: in a minute that matches, one poll that comes 60 seconds after the last start before the
    minute starts the task, and no other poll does.  The induction follows the polls; it makes a
    difference whether the first of them is before, in or behind the minute. -/
theorem startsIn_length (hunique : c.unique = false) (hsorted : polls.Pairwise (·.now ≤ ·.now))
    (minute : Nat) :
    (startsIn (cronRun calendar c polls) minute).length = (startsIn c minute).length +
      if upsgi_cron_task_needs_execution (calendar minute) c.spec ∧
        ∃ poll ∈ polls, poll.now / 60 = minute ∧
          (cronRun calendar c (pollsBefore polls minute)).last_job + 60 ≤ poll.now
      then 1 else 0 := by
  induction polls generalizing c with
  | nil => simp [cronRun]
  | cons poll polls ih =>
    obtain ⟨hlater, hsorted⟩ := pairwise_cons.mp hsorted
    have hminute : ∀ other ∈ polls, poll.now / 60 ≤ other.now / 60 :=
      fun other hother => Nat.div_le_div_right (hlater other hother)
    have hrun : ∀ polls, cronRun calendar c (poll :: polls) =
        cronRun calendar (manageCron calendar c poll) polls := fun _ => rfl
    simp only [exists_mem_cons_iff]
    rw [hrun]
    by_cases hlt : poll.now / 60 < minute
    · have hbefore : pollsBefore (poll :: polls) minute = poll :: pollsBefore polls minute :=
        takeWhile_cons_of_pos (by simpa using hlt)
      simp only [hbefore, hrun, Nat.ne_of_lt hlt, false_and, false_or]
      have hstep := manageCron_polled calendar hunique poll
      generalize manageCron calendar c poll = c' at hstep ⊢
      cases hstep with
      | started h =>
        rw [ih (c := c.start poll) hunique hsorted, startsIn_start, if_neg (Nat.ne_of_lt hlt)]
        rfl
      | passed h => exact ih hunique hsorted
    · have hle := Nat.le_of_not_lt hlt
      have hnil : pollsBefore polls minute = [] :=
        pollsBefore_eq_nil fun other hother => Nat.le_trans hle (hminute other hother)
      have hnone : pollsBefore (poll :: polls) minute = [] :=
        takeWhile_cons_of_neg (by simpa using hle)
      rw [hnil] at ih
      simp only [hnone]
      have hstep := manageCron_polled calendar hunique poll
      generalize manageCron calendar c poll = c' at hstep ⊢
      cases hstep with
      | started h =>
        -- the minute is over before another 60 seconds are
        have hover : ¬∃ other ∈ polls, other.now / 60 = minute ∧ poll.now + 60 ≤ other.now := by
          rintro ⟨other, hother, rfl, hlate⟩
          have hge := hminute other hother
          omega
        rw [ih (c := c.start poll) hunique hsorted, if_neg fun hand => hover hand.2, startsIn_start]
        by_cases heq : poll.now / 60 = minute
        · rw [if_pos heq, if_pos ⟨heq ▸ h.1, .inl ⟨heq, h.2⟩⟩]
        · rw [if_neg heq, if_neg]
          rintro ⟨_, hnow | ⟨other, hother, hin, _⟩⟩
          · exact heq hnow.1
          · have hge := hminute other hother
            omega
      | passed h =>
        rw [ih hunique hsorted]
        refine congrArg _ (if_congr (and_congr_right fun hmatch => ?_) rfl rfl)
        refine (or_iff_right ?_).symm
        rintro ⟨rfl, hlate⟩
        exact h ⟨hmatch, hlate⟩

theorem cronRun_spec (polls : List CronPoll) : (cronRun calendar c polls).spec = c.spec := by
  induction polls generalizing c with
  | nil => rfl
  | cons poll polls ih =>
    refine (ih (c := manageCron calendar c poll)).trans ?_
    unfold manageCron
    split_ifs <;> rfl

/-- The task is started exactly once in each minute that matches and has a poll, and in no
    other. -/
def StartedOnce (calendar : Nat → CronTm) (polls : List CronPoll) (c : Cron) : Prop :=
  ∀ minute, (startsIn c minute).length =
    if upsgi_cron_task_needs_execution (calendar minute) c.spec ∧
      ∃ poll ∈ polls, poll.now / 60 = minute then 1 else 0

/-- A task for every minute. -/
def everyMinute : Cron where
  spec := ⟨-1, -1, -1, -1, -1⟩
  unique := false

end Upsgi
