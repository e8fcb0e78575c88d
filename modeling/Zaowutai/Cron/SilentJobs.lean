import Zaowutai.Lib.Run
import Zaowutai.Cron.CronService

/-!
# Jobs that go silent

A tick that was fired by a timer for a single occurrence leaves no timer
behind.  Most of its ends arm one; the ends after a failure and after a lost
lease do not, and rely on the timer of the schedule, which the retry has
replaced.
-/

namespace Zaowutai.Cron

open Zaowutai.Lib

def CronLibrary.Recurs (lib : CronLibrary) : CronSchedule → Prop
  | .at _ => False
  | .every _ => True
  | .cron expr tz => ∀ now, (lib.nextAfter expr tz now).isSome = true

namespace CronState

def RowDisabled (s : CronState) : Prop := ∀ row, s.row = some row → row.enabled = false

def Alone (s : CronState) (call : ℕ) : Prop := ∀ other, other ≠ call → s.calls.lookup other = none

end CronState

namespace CronService

variable (c : CronService) (s : CronState)

def Live : Prop :=
  ∃ job, s.row = some job ∧ job.enabled = true ∧
    (s.runs.hasUnfinishedRun c.jobId = true ∨ c.lib.Recurs job.schedule)

/-- Ticks without edits, while other instances may take the runs over. -/
def OnlyTicks : CronAction → Prop
  | .enter _ _ => False
  | .fire _ _ | .advance _ _ _ _ | .heartbeat _ _ | .other _ | .otherOwner _ _ _ => True

/-- When the last call under way ends and the job is live, a timer is armed. -/
def LeavesTimer (a : CronAction) : Prop :=
  ∀ call now ok result, a = .advance call now ok result → (s.calls.lookup call).isSome = true →
    (∀ other, (c.step s a).calls.lookup other = none) → c.Live (c.step s a) →
      (c.step s a).timer ≠ none

/-- If the step ends its call while the job is live, a timer is armed. -/
def Rearms (out : CronProgress) : Prop :=
  out.2 = none → c.Live out.1 → out.1.timer ≠ none

def endsBare (ok : Bool) : CronCall → Bool
  | .tick _ _ .entered | .tick _ _ (.loaded _) | .tick _ _ (.claiming _) => !ok && s.timer.isNone
  | .tick scheduledAt _ (.executing _) =>
      !(ok && s.runs.isOwned c.jobId scheduledAt c.instanceId) && s.timer.isNone
  | .rearm .cancel => true
  | .rearm (.arm job) => (scheduleJob job).isNone
  | .tick _ _ (.duplicate _ _) | .tick _ _ (.rescheduling _) | .rearm (.disable _ _)
  | .rearm (.advance _ _ _) | .rearm (.track _ _) | .update _ | .persistUpdate _ _ | .remove
  | .deleteRow | .resume | .inspectRow _ _ => false

def EndsArmed : CronAction → Prop
  | .advance call _ ok _ => ∀ under, s.calls.lookup call = some under → s.Alone call →
      c.endsBare s ok under = true → ¬c.Live s
  | .fire _ _ | .enter _ _ | .heartbeat _ _ | .other _ | .otherOwner _ _ _ => True

def isTick : CronCall → Prop
  | .tick _ _ (.loaded job) => job.enabled = false → s.RowDisabled
  | .tick _ _ .entered | .tick _ _ (.claiming _) | .tick _ _ (.duplicate _ _)
  | .tick _ _ (.executing _) | .tick _ _ (.rescheduling _) => True
  | .rearm (.advance _ _ scheduledAt) => scheduledAt.isSome = true
  | .rearm (.disable _ _) | .rearm .cancel | .rearm (.arm _) | .rearm (.track _ _) => True
  | .update _ | .persistUpdate _ _ | .remove | .deleteRow | .resume | .inspectRow _ _ => False

variable {c s}

theorem Live.not_rowDisabled (h : c.Live s) : ¬s.RowDisabled := by
  obtain ⟨job, hrow, henabled, -⟩ := h
  intro hdisabled
  cases (hdisabled job hrow).symm.trans henabled

theorem rearms_iff_of_stop {lost : Bool} (hlost : lost = true) :
    c.Rearms (s, none) ↔ ((lost && s.timer.isNone) = true → ¬c.Live s) := by
  rw [hlost, Bool.true_and, Option.isNone_iff_eq_none]
  exact ⟨fun h hnone hlive ↦ h rfl hlive hnone, fun h _ hlive hnone ↦ h hnone hlive⟩

theorem rearms_iff_of_rest {out : CronProgress} {bare : Bool} (hrest : out.2 ≠ none)
    (hbare : bare = false) : c.Rearms out ↔ (bare = true → ¬c.Live s) :=
  iff_of_true (fun h ↦ absurd h hrest) fun h ↦ (by cases hbare.symm.trans h)

theorem rearms_advanceRearm_iff (now : ℤ) (ok : Bool) {step : Rearm}
    (htick : isTick s (.rearm step)) :
    c.Rearms (c.advanceRearm s now ok step) ↔
      (c.endsBare s ok (.rearm step) = true → ¬c.Live s) := by
  cases step with
  | disable job origin => exact rearms_iff_of_rest (by simp [advanceRearm]) rfl
  | cancel =>
      constructor
      · exact fun h _ hlive ↦ h rfl hlive rfl
      · exact fun h _ hlive _ ↦ h rfl hlive
  | advance job origin scheduledAt =>
      have hsome : scheduledAt.isSome = true := htick
      refine rearms_iff_of_rest ?_ rfl
      simp [advanceRearm, hsome]
  | arm job =>
      constructor
      · exact fun h hnone hlive ↦ h rfl hlive (Option.isNone_iff_eq_none.mp hnone)
      · exact fun h _ hlive hnone ↦ h (Option.isNone_iff_eq_none.mpr hnone) hlive
  | track scheduledAt wakeAt =>
      exact iff_of_true (fun _ _ h ↦ (by cases h)) fun h ↦ (by cases h)

theorem rearms_handleExecutionResult_iff (now : ℤ) (ok : Bool) (scheduledAt : ℤ)
    (origin : CronSchedule) (job : CronJob) (result : ExecutionResult) :
    c.Rearms (c.handleExecutionResult s now ok scheduledAt origin job result) ↔
      (c.endsBare s ok (.tick scheduledAt origin (.executing job)) = true → ¬c.Live s) := by
  obtain ⟨runs, rest, -, heq⟩ := c.handleExecutionResult_eq s now ok scheduledAt origin job result
  rw [heq]
  split
  · next howned =>
      refine rearms_iff_of_rest (by simp) ?_
      rw [endsBare, howned]
      rfl
  · next hlost =>
      apply rearms_iff_of_stop
      rw [Bool.not_eq_true']
      exact Bool.eq_false_iff.mpr hlost

theorem rearms_advance_iff (now : ℤ) (ok : Bool) (result : ExecutionResult) {under : CronCall}
    (htick : isTick s under) :
    c.Rearms (c.advance s now ok result under) ↔ (c.endsBare s ok under = true → ¬c.Live s) := by
  cases under with
  | update _ | persistUpdate _ _ | remove | deleteRow | resume | inspectRow _ _ =>
      exact htick.elim
  | rearm step => exact rearms_advanceRearm_iff now ok htick
  | tick scheduledAt origin phase =>
      simp only [advance]
      cases phase with
      | executing job => exact rearms_handleExecutionResult_iff now ok scheduledAt origin job result
      | entered =>
          cases ok with
          | false => exact rearms_iff_of_stop rfl
          | true =>
              simp only [advanceTick]
              cases hrow : s.row with
              | none =>
                  refine iff_of_true (fun _ hlive ↦ ?_) fun h ↦ (by cases h)
                  obtain ⟨job, hjob, -⟩ := hlive
                  cases hjob
              | some job => exact rearms_iff_of_rest (by simp) rfl
      | loaded job =>
          cases ok with
          | false => exact rearms_iff_of_stop rfl
          | true =>
              simp only [advanceTick]
              cases henabled : job.enabled with
              | false =>
                  refine iff_of_true (fun _ hlive ↦ ?_) fun h ↦ (by cases h)
                  exact absurd (htick henabled) hlive.not_rowDisabled
              | true => exact rearms_iff_of_rest (by simp) rfl
      | claiming job =>
          cases ok with
          | false => exact rearms_iff_of_stop rfl
          | true => exact rearms_iff_of_rest (by simp [advanceTick]) rfl
      | duplicate job claimNow =>
          refine rearms_iff_of_rest ?_ rfl
          simp only [advanceTick]
          split <;> simp
      | rescheduling job =>
          refine rearms_iff_of_rest ?_ rfl
          simp only [advanceTick]
          split
          · simp
          · split <;> simp

def TickCalls (s : CronState) : Prop :=
  ∀ call under, s.calls.lookup call = some under → isTick s under

theorem isTick_mono {t : CronState} (h : s.RowDisabled → t.RowDisabled) {under : CronCall}
    (htick : isTick s under) : isTick t under := by
  cases under with
  | tick scheduledAt origin phase => cases phase with
    | loaded job => exact fun hdisabled ↦ h (htick hdisabled)
    | entered | claiming _ | duplicate _ _ | executing _ | rescheduling _ => trivial
  | rearm step => cases step with
    | advance job origin scheduledAt => exact htick
    | disable _ _ | cancel | arm _ | track _ _ => trivial
  | update _ | persistUpdate _ _ | remove | deleteRow | resume | inspectRow _ _ =>
      exact htick.elim

theorem rowDisabled_advance (now : ℤ) (ok : Bool) (result : ExecutionResult) {under : CronCall}
    (htick : isTick s under) (h : s.RowDisabled) :
    (c.advance s now ok result under).1.RowDisabled := by
  cases under with
  | update _ | persistUpdate _ _ | remove | deleteRow | resume | inspectRow _ _ =>
      exact htick.elim
  | tick scheduledAt origin phase =>
      have hrow : (c.advanceTick s now ok scheduledAt origin result phase).1.row = s.row := by
        cases phase with
        | executing job =>
            obtain ⟨_, _, -, heq⟩ :=
              c.handleExecutionResult_eq s now ok scheduledAt origin job result
            simp only [advanceTick, heq]
            split <;> rfl
        | entered =>
            simp only [advanceTick]
            split
            · rfl
            · split <;> rfl
        | loaded job =>
            simp only [advanceTick]
            split <;> rfl
        | claiming job =>
            simp only [advanceTick]
            split <;> rfl
        | duplicate job claimNow =>
            simp only [advanceTick]
            split <;> rfl
        | rescheduling job =>
            simp only [advanceTick]
            split
            · rfl
            · split <;> rfl
      intro row hsome
      exact h row (hrow ▸ hsome)
  | rearm step =>
      have hwrite : ∀ (job : CronJob) (origin : CronSchedule) (write : CronJob → CronJob),
          (∀ row, row.enabled = false → (write row).enabled = false) →
            (s.writeRow job origin write).RowDisabled := by
        intro job origin write hkeeps row hsome
        obtain ⟨before, hbefore, rfl⟩ := Option.map_eq_some_iff.mp hsome
        exact hkeeps before (h before hbefore)
      cases step with
      | disable job origin =>
          simp only [advance, advanceRearm]
          split
          · exact hwrite job origin _ fun _ _ ↦ rfl
          · exact h
      | advance job origin scheduledAt =>
          simp only [advance, advanceRearm]
          split
          · exact hwrite job origin _ fun _ hrow ↦ hrow
          · exact h
      | cancel | arm _ | track _ _ => exact h

theorem isTick_advance (now : ℤ) (ok : Bool) (result : ExecutionResult) {under next : CronCall}
    (htick : isTick s under) (hrest : (c.advance s now ok result under).2 = some next) :
    isTick s next := by
  cases under with
  | update _ | persistUpdate _ _ | remove | deleteRow | resume | inspectRow _ _ =>
      exact htick.elim
  | tick scheduledAt origin phase => cases phase with
    | entered =>
        simp only [advance, advanceTick] at hrest
        split at hrest
        · cases hrest
        · split at hrest
          · cases hrest
          · next job hrow =>
              cases hrest
              intro hdisabled row hsome
              obtain rfl : job = row := Option.some.inj (hrow.symm.trans hsome)
              exact hdisabled
    | loaded job =>
        simp only [advance, advanceTick] at hrest
        split at hrest <;> cases hrest
        trivial
    | claiming job =>
        simp only [advance, advanceTick] at hrest
        split at hrest <;> cases hrest
        split <;> trivial
    | duplicate job claimNow =>
        simp only [advance, advanceTick] at hrest
        split at hrest <;> cases hrest <;> trivial
    | rescheduling job =>
        simp only [advance, advanceTick] at hrest
        split at hrest
        · cases hrest
          trivial
        · split at hrest <;> cases hrest
          · trivial
          · exact rfl
    | executing job =>
        obtain ⟨_, _, hcases, heq⟩ :=
          c.handleExecutionResult_eq s now ok scheduledAt origin job result
        simp only [advance, advanceTick, heq] at hrest
        split at hrest
        · cases hrest
          rcases hcases with rfl | rfl <;> trivial
        · cases hrest
  | rearm step => cases step with
    | disable job origin =>
        cases hrest
        trivial
    | advance job origin scheduledAt =>
        simp only [advance, advanceRearm] at hrest
        split at hrest <;> cases hrest
        trivial
    | cancel | arm _ | track _ _ => cases hrest

theorem TickCalls.advance (h : TickCalls s) {call : ℕ} {under : CronCall}
    (hcall : s.calls.lookup call = some under) (now : ℤ) (ok : Bool) (result : ExecutionResult) :
    TickCalls (s.progress call (c.advance s now ok result under)) := by
  have htick := h call under hcall
  have hmono : s.RowDisabled →
      (s.progress call (c.advance s now ok result under)).RowDisabled :=
    rowDisabled_advance now ok result htick
  intro other what hother
  rw [s.lookup_progress] at hother
  apply isTick_mono hmono
  split at hother
  · exact isTick_advance now ok result htick hother
  · exact h other what hother

theorem TickCalls.step (h : TickCalls s) {a : CronAction} (honly : OnlyTicks a) :
    TickCalls (c.step s a) := by
  cases a with
  | enter _ _ => exact honly.elim
  | advance call now ok result =>
      simp only [CronService.step]
      split
      · exact h
      · next under hcall => exact h.advance hcall now ok result
  | fire call now =>
      simp only [CronService.step]
      split
      · next timer _ hfree =>
          intro other what hother
          have hlookup : (s.calls.insert call (.tick timer.scheduledAt _ .entered)).lookup other =
            some what := hother
          rw [Table.lookup_insert_eq] at hlookup
          split at hlookup
          · cases hlookup
            trivial
          · exact h other what hlookup
      · exact h
  | heartbeat call now =>
      simp only [CronService.step]
      split <;> exact h
  | other params => exact h
  | otherOwner scheduledAt ownerId call => exact h

theorem TickCalls.leavesTimer_iff (h : TickCalls s) {a : CronAction} (honly : OnlyTicks a) :
    c.LeavesTimer s a ↔ c.EndsArmed s a := by
  cases a with
  | enter _ _ => exact honly.elim
  | fire _ _ | heartbeat _ _ | other _ | otherOwner _ _ _ =>
      exact iff_of_true (fun _ _ _ _ ha ↦ (by cases ha)) trivial
  | advance call now ok result =>
      cases hcall : s.calls.lookup call with
      | none =>
          refine iff_of_true ?_ fun under hunder ↦ (by cases hcall.symm.trans hunder)
          rintro _ _ _ _ ⟨rfl⟩ hsome
          rw [hcall] at hsome
          cases hsome
      | some under =>
          have hstep : c.step s (.advance call now ok result) =
              s.progress call (c.advance s now ok result under) := by
            simp only [CronService.step, hcall]
          have hiff := rearms_advance_iff (c := c) now ok result (h call under hcall)
          constructor
          · intro hleaves under' hunder halone
            obtain rfl : under = under' := Option.some.inj (hcall.symm.trans hunder)
            refine hiff.mp fun hrest hlive ↦ ?_
            have hend : ∀ other, (c.step s (.advance call now ok result)).calls.lookup other =
                none := by
              intro other
              rw [hstep, s.lookup_progress]
              split
              · exact hrest
              · next hne => exact halone other hne
            have hleft := hleaves call now ok result rfl (by rw [hcall]; rfl) hend
            rw [hstep] at hleft
            exact hleft hlive
          · rintro hguard _ _ _ _ ⟨rfl⟩ - hend hlive
            rw [hstep] at hend hlive ⊢
            have halone : s.Alone call := by
              intro other hne
              have hother := hend other
              rwa [s.lookup_progress, if_neg hne] at hother
            have hrest : (c.advance s now ok result under).2 = none := by
              have hself := hend call
              rwa [s.lookup_progress, if_pos rfl] at hself
            exact hiff.mpr (hguard under hcall halone) hrest hlive

theorem tickCalls_start (userId : String) (job : CronJob) : TickCalls (c.start userId job) :=
  fun _ _ h ↦ by cases h

/-- In every run of ticks, whatever fails and whoever takes the runs over, a live job keeps a timer
after each tick exactly if the last tick under way never ends bare. -/
theorem leavesTimer_iff_endsArmed (userId : String) (job : CronJob) (as : List CronAction)
    (honly : Meets c.step (fun _ a ↦ OnlyTicks a) (c.start userId job) as) :
    Meets c.step c.LeavesTimer (c.start userId job) as ↔
      Meets c.step c.EndsArmed (c.start userId job) as :=
  meets_iff_meets_of_meets (fun _ _ h ha _ ↦ h.step ha) (fun _ _ h ha ↦ h.leavesTimer_iff ha)
    (tickCalls_start userId job) honly

def NeverBare (c : CronService) (s : CronState) : CronAction → Prop
  | .advance call _ ok _ => (s.calls.lookup call).all (fun under ↦ !c.endsBare s ok under) = true
  | .fire _ _ | .enter _ _ | .heartbeat _ _ | .other _ | .otherOwner _ _ _ => True

theorem NeverBare.endsArmed {a : CronAction} (h : c.NeverBare s a) : c.EndsArmed s a := by
  cases a with
  | fire _ _ | enter _ _ | heartbeat _ _ | other _ | otherOwner _ _ _ => trivial
  | advance call now ok result =>
      intro under hunder _ hbare
      rw [NeverBare, hunder] at h
      simp [hbare] at h

instance : DecidablePred OnlyTicks
  | .enter _ _ => inferInstanceAs (Decidable False)
  | .fire _ _ | .advance _ _ _ _ | .heartbeat _ _ | .other _ | .otherOwner _ _ _ =>
      inferInstanceAs (Decidable True)

instance (c : CronService) (s : CronState) : DecidablePred (c.NeverBare s)
  | .advance _ _ _ _ => inferInstanceAs (Decidable (_ = true))
  | .fire _ _ | .enter _ _ | .heartbeat _ _ | .other _ | .otherOwner _ _ _ =>
      inferInstanceAs (Decidable True)

def minutely : CronService := ⟨⟨fun _ _ ↦ false, fun _ _ _ ↦ none⟩, "job", "instance"⟩

/-- A tick claims the occurrence, finds its conversation busy, and arms a timer for the retry. -/
def deferral : List CronAction :=
  .fire 0 60000 :: List.replicate 3 (.advance 0 60000 true .skipped) ++
    List.replicate 2 (.advance 0 60000 true (.retrying 1)) ++ [.fire 0 90000]

theorem retried_leavesTimer :
    Meets minutely.step minutely.LeavesTimer
      (minutely.start "user" ⟨true, .every 60000, some 60000, false⟩)
      (deferral ++ List.replicate 7 (.advance 0 90000 true .skipped)) :=
  (leavesTimer_iff_endsArmed _ _ _ (by decide)).mpr
    (Meets.mono (fun _ _ ↦ NeverBare.endsArmed) (by decide))

/-- The row of the job cannot be loaded when the retry is due. -/
theorem failed_retry_goes_silent :
    ¬∀ (c : CronService) userId job as,
      Meets c.step (fun _ a ↦ OnlyTicks a) (c.start userId job) as →
        Meets c.step c.LeavesTimer (c.start userId job) as := by
  intro h
  have hruns := h minutely "user" ⟨true, .every 60000, some 60000, false⟩
    (deferral ++ [.advance 0 90000 false .skipped]) (by decide)
  have hlast := (meets_append.mp hruns).2.1
  have hleft := hlast 0 90000 false .skipped rfl (by decide) (fun other ↦ rfl)
  exact hleft ⟨⟨true, .every 60000, some 60000, false⟩, by decide, rfl, .inr trivial⟩ (by decide)

end CronService

end Zaowutai.Cron
