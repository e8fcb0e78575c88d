import Zaowutai.Lib.Run
import Zaowutai.Cron.CronService

/-!
# Edits of a schedule beside its runs

A tick writes the next time of the job and arms the timer from the copy of the
row with which it started.  When no call rests and no occurrence is
unfinished, the row is what the edits made of it and the timer is the one of
the row, provided that every copy was still current when it was written back
or armed.
-/

namespace Zaowutai.Cron

open Zaowutai.Lib

namespace CronCall

def isClosing : CronCall → Bool
  | .tick _ _ (.duplicate _ _) | .tick _ _ (.rescheduling _) | .rearm _ => true
  | .tick _ _ .entered | .tick _ _ (.loaded _) | .tick _ _ (.claiming _)
  | .tick _ _ (.executing _) | .update _ | .persistUpdate _ _ | .remove | .deleteRow | .resume
  | .inspectRow _ _ => false

def isOwing : CronCall → Bool
  | .tick _ _ .entered | .tick _ _ (.claiming _) => true
  | .tick _ _ (.loaded job) => job.enabled
  | call => call.isClosing

theorem isOwing_of_isClosing {call : CronCall} (h : call.isClosing = true) :
    call.isOwing = true := by
  cases call with
  | tick _ _ phase => cases phase with
    | duplicate _ _ | rescheduling _ => rfl
    | entered | loaded _ | claiming _ | executing _ => cases h
  | rearm _ => rfl
  | update _ | persistUpdate _ _ | remove | deleteRow | resume | inspectRow _ _ => cases h

end CronCall

namespace CronState

variable (s : CronState)

def TimerFollows : Prop :=
  ∀ timer, s.timer = some timer → ∃ job next, s.row = some job ∧ job.enabled = true ∧
    job.nextRunAt = some next ∧ timer = .schedule job.schedule next

def otherClosing (call : ℕ) : Bool :=
  s.calls.entries.any fun entry ↦ entry.1 ≠ call && entry.2.isClosing

end CronState

namespace CronService

variable (c : CronService) (s : CronState)

def Settled : Prop :=
  (∀ call, s.calls.lookup call = none) → s.runs.hasUnfinishedRun c.jobId = false →
    s.row = s.expected ∧ s.TimerFollows

/-- Every call of the repository succeeds, and the runs belong to this instance. -/
def Undisturbed : CronAction → Prop
  | .advance _ _ ok _ => ok = true
  | .other _ | .otherOwner _ _ _ => False
  | .fire _ _ | .enter _ _ | .heartbeat _ _ => True

/-- What is written back or armed is a copy of the current row. -/
def permits (call : ℕ) : Rearm → Bool
  | .disable job origin | .advance job origin _ =>
      s.row.any fun row ↦ row.enabled && row.schedule = job.schedule && row.schedule = origin
  | .cancel => true
  | .arm job =>
      (scheduleJob job).isNone || s.otherClosing call || s.row.any fun row ↦
        row.enabled && row.schedule = job.schedule && row.nextRunAt = job.nextRunAt
  | .track _ _ => s.runs.hasUnfinishedRun c.jobId || s.otherClosing call

def isCurrent (call : ℕ) : CronCall → Bool
  | .rearm step => c.permits s call step
  | .deleteRow => s.timer.isNone || s.otherClosing call
  | .tick _ _ _ | .update _ | .persistUpdate _ _ | .remove | .resume | .inspectRow _ _ => true

def Current : CronAction → Prop
  | .advance call _ _ _ => (s.calls.lookup call).all (c.isCurrent s call) = true
  | .fire _ _ | .enter _ _ | .heartbeat _ _ | .other _ | .otherOwner _ _ _ => True

structure Settling : Prop where
  row : s.row = s.expected
  follows : s.TimerFollows ∨ s.runs.hasUnfinishedRun c.jobId = true ∨
    ∃ call under, s.calls.lookup call = some under ∧ under.isOwing = true
  disabled : (∀ job, s.row = some job → job.enabled = false) → s.timer = none ∨
    s.runs.hasUnfinishedRun c.jobId = true ∨
      ∃ call under, s.calls.lookup call = some under ∧ under.isClosing = true

variable {c s}

theorem Settling.settled (h : c.Settling s) : c.Settled s := by
  intro hrest hfinished
  refine ⟨h.row, ?_⟩
  rcases h.follows with hfollows | hunfinished | ⟨call, under, hcall, -⟩
  · exact hfollows
  · cases hfinished.symm.trans hunfinished
  · cases (hrest call).symm.trans hcall

theorem timerFollows_of_none (h : s.timer = none) : s.TimerFollows := by
  intro timer htimer
  cases h.symm.trans htimer

theorem settling_of_follows (hrow : s.row = s.expected)
    (h : s.TimerFollows ∨ s.runs.hasUnfinishedRun c.jobId = true ∨
      ∃ call under, s.calls.lookup call = some under ∧ under.isClosing = true) :
    c.Settling s := by
  refine ⟨hrow, ?_, fun hdisabled ↦ ?_⟩
  · rcases h with hfollows | hunfinished | ⟨call, under, hcall, hclosing⟩
    · exact .inl hfollows
    · exact .inr (.inl hunfinished)
    · exact .inr (.inr ⟨call, under, hcall, CronCall.isOwing_of_isClosing hclosing⟩)
  · rcases h with hfollows | hlater
    · left
      by_contra htimer
      obtain ⟨timer, htimer⟩ := Option.ne_none_iff_exists'.mp htimer
      obtain ⟨job, _, hjob, henabled, -⟩ := hfollows timer htimer
      cases (hdisabled job hjob).symm.trans henabled
    · exact .inr hlater

theorem otherClosing_iff {call : ℕ} :
    s.otherClosing call = true ↔ ∃ other under, other ≠ call ∧
      s.calls.lookup other = some under ∧ under.isClosing = true := by
  simp only [CronState.otherClosing, List.any_eq_true, Bool.and_eq_true, decide_eq_true_eq]
  constructor
  · rintro ⟨⟨other, under⟩, hmem, hne, hclosing⟩
    exact ⟨other, under, hne, Table.mem_entries_iff.mp hmem, hclosing⟩
  · rintro ⟨other, under, hne, hother, hclosing⟩
    exact ⟨⟨other, under⟩, Table.mem_entries_iff.mpr hother, hne, hclosing⟩

section Progress

variable {call : ℕ} {under : CronCall} {out : CronProgress}

theorem Settling.quiet (h : c.Settling s) (hcall : s.calls.lookup call = some under)
    (hrow : out.1.row = s.row) (hexpected : out.1.expected = s.expected)
    (htimer : out.1.timer = s.timer)
    (hunfinished : s.runs.hasUnfinishedRun c.jobId = true →
      out.1.runs.hasUnfinishedRun c.jobId = true)
    (howing : under.isOwing = true → ∃ next, out.2 = some next ∧ next.isOwing = true)
    (hclosing : under.isClosing = true → ∃ next, out.2 = some next ∧ next.isClosing = true) :
    c.Settling (s.progress call out) := by
  have hkept : ∀ p : CronCall → Bool,
      (p under = true → ∃ next, out.2 = some next ∧ p next = true) →
        (∃ other what, s.calls.lookup other = some what ∧ p what = true) →
          ∃ other what, (s.progress call out).calls.lookup other = some what ∧ p what = true := by
    rintro p hp ⟨other, what, hother, hwhat⟩
    by_cases heq : other = call
    · subst heq
      obtain rfl : under = what := Option.some.inj (hcall.symm.trans hother)
      obtain ⟨next, hrest, hnext⟩ := hp hwhat
      exact ⟨other, next, by rw [s.lookup_progress, if_pos rfl, hrest], hnext⟩
    · exact ⟨other, what, by rw [s.lookup_progress, if_neg heq, hother], hwhat⟩
  refine ⟨(hrow.trans h.row).trans hexpected.symm, ?_, ?_⟩
  · rcases h.follows with hfollows | hbefore | howed
    · left
      intro timer ht
      obtain ⟨job, next, hjob, hnext⟩ := hfollows timer (htimer.symm.trans ht)
      exact ⟨job, next, hrow.trans hjob, hnext⟩
    · exact .inr (.inl (hunfinished hbefore))
    · exact .inr (.inr (hkept _ howing howed))
  · intro hdisabled
    rcases h.disabled fun job hjob ↦ hdisabled job (hrow.trans hjob) with
      hnone | hbefore | hclosed
    · exact .inl (htimer.trans hnone)
    · exact .inr (.inl (hunfinished hbefore))
    · exact .inr (.inr (hkept _ hclosing hclosed))

theorem settling_of_closing {next : CronCall} (hrest : out.2 = some next)
    (hnext : next.isClosing = true) (hrow : out.1.row = out.1.expected) :
    c.Settling (s.progress call out) :=
  settling_of_follows hrow
    (.inr (.inr ⟨call, next, by rw [s.lookup_progress, if_pos rfl, hrest], hnext⟩))

theorem settling_of_last (hrow : out.1.row = out.1.expected)
    (h : out.1.TimerFollows ∨ out.1.runs.hasUnfinishedRun c.jobId = true ∨
      s.otherClosing call = true) : c.Settling (s.progress call out) := by
  have hprogress : (s.progress call out).row = (s.progress call out).expected := hrow
  apply settling_of_follows hprogress
  rcases h with hfollows | hunfinished | hother
  · exact .inl hfollows
  · exact .inr (.inl hunfinished)
  · obtain ⟨other, under, hne, hother, hclosing⟩ := otherClosing_iff.mp hother
    exact .inr (.inr ⟨other, under, by rw [s.lookup_progress, if_neg hne, hother], hclosing⟩)

theorem Settling.stop (h : c.Settling s) (hcall : s.calls.lookup call = some under)
    (hdebt : under.isOwing = false) (rest : Option CronCall) :
    c.Settling (s.progress call (s, rest)) := by
  refine h.quiet hcall rfl rfl rfl id (fun howing ↦ ?_) fun hclosing ↦ ?_
  · cases hdebt.symm.trans howing
  · cases hdebt.symm.trans (CronCall.isOwing_of_isClosing hclosing)

theorem row_writeRow (hrow : s.row = s.expected) {job : CronJob} {origin : CronSchedule}
    (hcurrent : (s.row.any fun row ↦
      row.enabled && row.schedule = job.schedule && row.schedule = origin) = true)
    (write : CronJob → CronJob) :
    (s.writeRow job origin write).row = (s.writeRow job origin write).expected := by
  have hadjusts : s.adjusts job origin = true := by
    rw [CronState.adjusts, ← hrow]
    exact hcurrent
  simp only [CronState.writeRow, hadjusts, reduceIte, hrow]

theorem Settling.advanceRearm (h : c.Settling s) (now : ℤ) {step : Rearm}
    (hcurrent : c.permits s call step = true) :
    c.Settling (s.progress call (c.advanceRearm s now true step)) := by
  cases step with
  | disable job origin => exact settling_of_closing rfl rfl (row_writeRow h.row hcurrent _)
  | cancel => exact settling_of_last h.row (.inl (timerFollows_of_none rfl))
  | advance job origin scheduledAt =>
      obtain ⟨row, hrow, -⟩ := (Option.any_eq_true _ _).mp hcurrent
      have hwritten : (true && s.row.isSome) = true := by
        rw [hrow]
        rfl
      simp only [CronService.advanceRearm, hwritten, reduceIte, Bool.true_or]
      exact settling_of_closing rfl rfl (row_writeRow h.row hcurrent _)
  | arm job =>
      refine settling_of_last h.row ?_
      simp only [permits, Bool.or_eq_true, Option.isNone_iff_eq_none] at hcurrent
      rcases hcurrent with (hnone | hother) | hrow
      · exact .inl (timerFollows_of_none hnone)
      · exact .inr (.inr hother)
      · left
        intro timer htimer
        obtain ⟨-, next, hnext, rfl⟩ := scheduleJob_eq_some.mp htimer
        obtain ⟨row, hrow, hsame⟩ := (Option.any_eq_true _ _).mp hrow
        simp only [Bool.and_eq_true, decide_eq_true_eq] at hsame
        obtain ⟨⟨henabled, hschedule⟩, hnextRun⟩ := hsame
        exact ⟨row, next, hrow, henabled, hnextRun.trans hnext, by rw [hschedule]⟩
  | track scheduledAt wakeAt =>
      refine settling_of_last h.row ?_
      rcases (Bool.or_eq_true _ _).mp hcurrent with hunfinished | hother
      · exact .inr (.inl hunfinished)
      · exact .inr (.inr hother)

theorem Settling.handleExecutionResult (h : c.Settling s) (now : ℤ) {scheduledAt : ℤ}
    {origin : CronSchedule} {job : CronJob}
    (hcall : s.calls.lookup call = some (.tick scheduledAt origin (.executing job)))
    (result : ExecutionResult) :
    c.Settling
      (s.progress call (c.handleExecutionResult s now true scheduledAt origin job result)) := by
  obtain ⟨runs, rest, hrest, heq⟩ :=
    c.handleExecutionResult_eq s now true scheduledAt origin job result
  rw [heq]
  split
  · rcases hrest with rfl | rfl
    · exact settling_of_closing rfl rfl h.row
    · exact settling_of_closing rfl rfl h.row
  · exact h.stop hcall rfl none

theorem Settling.advanceTick (h : c.Settling s) (now : ℤ) {scheduledAt : ℤ}
    {origin : CronSchedule} {phase : TickPhase}
    (hcall : s.calls.lookup call = some (.tick scheduledAt origin phase))
    (result : ExecutionResult) :
    c.Settling
      (s.progress call (c.advanceTick s now true scheduledAt origin result phase)) := by
  cases phase with
  | entered =>
      simp only [CronService.advanceTick]
      cases hrow : s.row with
      | none =>
          exact settling_of_last (hrow.symm.trans h.row) (.inl (timerFollows_of_none rfl))
      | some job =>
          cases henabled : job.enabled with
          | true =>
              exact h.quiet hcall rfl rfl rfl id (fun _ ↦ ⟨_, rfl, henabled⟩) fun h ↦ by cases h
          | false =>
              -- The tick of a disabled job owes nothing: whoever disabled it cancels the timer.
              have hdisabled : ∀ row, s.row = some row → row.enabled = false := by
                intro row heq
                obtain rfl : job = row := Option.some.inj (hrow.symm.trans heq)
                exact henabled
              apply settling_of_last h.row
              rcases h.disabled hdisabled with hnone | hunfinished | ⟨other, under, hother, hclosing⟩
              · exact .inl (timerFollows_of_none hnone)
              · exact .inr (.inl hunfinished)
              · right; right
                refine otherClosing_iff.mpr ⟨other, under, ?_, hother, hclosing⟩
                rintro rfl
                cases Option.some.inj (hcall.symm.trans hother)
                cases hclosing
  | loaded job =>
      simp only [CronService.advanceTick]
      cases henabled : job.enabled with
      | false => exact h.stop hcall henabled none
      | true => exact h.quiet hcall rfl rfl rfl id (fun _ ↦ ⟨_, rfl, rfl⟩) fun h ↦ by cases h
  | claiming job =>
      simp only [CronService.advanceTick]
      cases hclaim : (s.runs.claimRun
          ⟨c.jobId, scheduledAt, c.instanceId, now, now + runLeaseMs, job.queueEnabled⟩).2 with
      | claimed =>
          exact settling_of_last h.row (.inr (.inl (s.runs.hasUnfinishedRun_of_claimed hclaim)))
      | duplicate => exact settling_of_closing rfl rfl h.row
      | queueBusy => exact settling_of_closing rfl rfl h.row
  | duplicate job claimNow =>
      simp only [CronService.advanceTick]
      split
      · exact settling_of_closing rfl rfl h.row
      · exact settling_of_closing rfl rfl h.row
  | executing job => exact h.handleExecutionResult now hcall result
  | rescheduling job =>
      simp only [CronService.advanceTick]
      split
      · exact settling_of_closing rfl rfl h.row
      · split
        · exact settling_of_closing rfl rfl h.row
        · exact settling_of_closing rfl rfl h.row

theorem Settling.advance (h : c.Settling s) (now : ℤ) (result : ExecutionResult)
    (hcall : s.calls.lookup call = some under)
    (hcurrent : c.Current s (.advance call now true result)) :
    c.Settling (s.progress call (c.advance s now true result under)) := by
  have hcurrent : c.isCurrent s call under = true := by
    rw [Current, hcall] at hcurrent
    exact hcurrent
  cases under with
  | tick scheduledAt origin phase => exact h.advanceTick now hcall result
  | rearm step => exact h.advanceRearm now hcurrent
  | update req =>
      simp only [CronService.advance]
      split
      · exact h.stop hcall rfl none
      · split
        · exact h.stop hcall rfl _
        · exact h.stop hcall rfl none
  | persistUpdate req job =>
      simp only [CronService.advance]
      split
      · exact settling_of_closing rfl rfl (congrArg (Option.map _) h.row)
      · exact h.stop hcall rfl none
  | remove => exact settling_of_last h.row (.inl (timerFollows_of_none rfl))
  | deleteRow =>
      refine settling_of_last rfl ?_
      rcases (Bool.or_eq_true _ _).mp hcurrent with hnone | hother
      · exact .inl (timerFollows_of_none (Option.isNone_iff_eq_none.mp hnone))
      · exact .inr (.inr hother)
  | resume =>
      simp only [CronService.advance]
      split
      · exact h.stop hcall rfl _
      · exact h.stop hcall rfl none
  | inspectRow job resumedAt =>
      simp only [CronService.advance]
      split
      · exact settling_of_closing rfl rfl h.row
      · split
        · split
          · exact settling_of_closing rfl rfl h.row
          · exact settling_of_closing rfl rfl h.row
        · exact settling_of_closing rfl rfl h.row

end Progress

theorem settling_start (userId : String) (job : CronJob) : c.Settling (c.start userId job) := by
  apply settling_of_follows rfl
  left
  intro timer htimer
  obtain ⟨henabled, next, hnext, htimer⟩ := scheduleJob_eq_some.mp htimer
  exact ⟨job, next, rfl, henabled, hnext, htimer⟩

theorem Settling.fire (h : c.Settling s) {call : ℕ} (hfree : s.calls.lookup call = none) (now : ℤ)
    {timer : CronTimer} (htimer : s.timer = some timer) :
    c.Settling (c.fire s call now timer) := by
  refine ⟨h.row, .inr (.inr ⟨call, _, AList.lookup_insert _, rfl⟩), fun hdisabled ↦ ?_⟩
  rcases h.disabled hdisabled with hnone | hunfinished | ⟨other, under, hother, hclosing⟩
  · cases htimer.symm.trans hnone
  · exact .inr (.inl hunfinished)
  · have hne : other ≠ call := by
      rintro rfl
      cases hfree.symm.trans hother
    exact .inr (.inr ⟨other, under, (AList.lookup_insert_ne hne).trans hother, hclosing⟩)

theorem Settling.enter (h : c.Settling s) {call : ℕ} (hfree : s.calls.lookup call = none)
    (request : CronCall) : c.Settling { s with calls := s.calls.insert call request } := by
  have hkept : ∀ p : CronCall → Bool,
      (∃ other what, s.calls.lookup other = some what ∧ p what = true) →
        ∃ other what, (s.calls.insert call request).lookup other = some what ∧ p what = true := by
    rintro p ⟨other, what, hother, hwhat⟩
    have hne : other ≠ call := by
      rintro rfl
      cases hfree.symm.trans hother
    exact ⟨other, what, (AList.lookup_insert_ne hne).trans hother, hwhat⟩
  refine ⟨h.row, h.follows.imp_right (Or.imp_right (hkept _)), fun hdisabled ↦ ?_⟩
  exact (h.disabled hdisabled).imp_right (Or.imp_right (hkept _))

theorem Settling.step (h : c.Settling s) {a : CronAction} (hundisturbed : Undisturbed a)
    (hcurrent : c.Current s a) : c.Settling (c.step s a) := by
  cases a with
  | fire call now =>
      simp only [CronService.step]
      split
      · next timer htimer hfree => exact h.fire hfree now htimer
      · exact h
  | enter call request =>
      simp only [CronService.step]
      split
      · next hfree =>
          have hnone : s.calls.lookup call = none :=
            Option.isNone_iff_eq_none.mp ((Bool.and_eq_true_iff).mp hfree).1
          exact h.enter hnone request
      · exact h
  | advance call now ok result =>
      obtain rfl : ok = true := hundisturbed
      simp only [CronService.step]
      split
      · exact h
      · next under hcall => exact h.advance now result hcall hcurrent
  | heartbeat call now =>
      simp only [CronService.step]
      split
      · exact ⟨h.row, h.follows.imp_right (Or.imp_left s.runs.hasUnfinishedRun_renewRunLease),
          fun hdisabled ↦ (h.disabled hdisabled).imp_right
            (Or.imp_left s.runs.hasUnfinishedRun_renewRunLease)⟩
      · exact h
  | other params => exact hundisturbed.elim
  | otherOwner scheduledAt ownerId call => exact hundisturbed.elim

/-- In every run in which what is written back or armed is current, the edits win: whenever no call
is under way and no occurrence is unfinished, row and timer are as the last edit and the occurrences
of its schedule have left them. -/
theorem settled_of_current (userId : String) (job : CronJob) (as : List CronAction)
    (hundisturbed : Meets c.step (fun _ a ↦ Undisturbed a) (c.start userId job) as)
    (hcurrent : Meets c.step c.Current (c.start userId job) as) :
    Throughout c.step c.Settled (c.start userId job) as := by
  have hguard := meets_and.mpr ⟨hundisturbed, hcurrent⟩
  have hsettling := throughout_of_meets (P := c.Settling)
    (fun s a h hboth ↦ h.step hboth.1 hboth.2) (settling_start userId job) hguard
  exact hsettling.mono fun s ↦ Settling.settled

instance (a : CronAction) : Decidable (Undisturbed a) := by
  cases a <;> unfold Undisturbed <;> infer_instance

instance (c : CronService) (s : CronState) (a : CronAction) : Decidable (c.Current s a) := by
  cases a <;> unfold Current <;> infer_instance

def everyMinute : CronService := ⟨⟨fun _ _ ↦ false, fun _ _ _ ↦ none⟩, "job", "instance"⟩

def steps (call n : ℕ) (now : ℤ) : List CronAction :=
  List.replicate n (.advance call now true .skipped)

/-- A tick runs to its end, and then the interval becomes an hour. -/
def editAfterRun : List CronAction :=
  .fire 0 60000 :: steps 0 7 60000 ++
    .enter 1 (.update ⟨none, some (.every 3600000), none⟩) :: steps 1 3 70000

theorem editAfterRun_settled :
    Throughout everyMinute.step everyMinute.Settled
      (everyMinute.start "user" ⟨true, .every 60000, some 60000, false⟩) editAfterRun :=
  settled_of_current _ _ _ (by decide) (by decide)

/-- The interval becomes an hour while a tick executes the job. -/
def editDuringRun : List CronAction :=
  .fire 0 60000 :: steps 0 3 60000 ++
    .enter 1 (.update ⟨none, some (.every 3600000), none⟩) :: steps 1 3 70000 ++ steps 0 4 80000

theorem editDuringRun_overwritten :
    ¬∀ (c : CronService) userId job as,
      Meets c.step (fun _ a ↦ Undisturbed a) (c.start userId job) as →
        Throughout c.step c.Settled (c.start userId job) as := by
  intro h
  have hlast := (h everyMinute "user" ⟨true, .every 60000, some 60000, false⟩ editDuringRun
    (by decide)).last
  have hrow := (hlast (fun call ↦ rfl) (by decide)).1
  exact absurd hrow (by decide)

end CronService

end Zaowutai.Cron
