import Zaowutai.Cron.CronScheduler

/-!
# The calls of the cron service on one job

A tick, an update, a removal and a resume each work on a copy of the job's row
and interleave at every call of the repository and of the scheduler.  The
calls under way are kept in a table, each with what is left of it.
-/

namespace Zaowutai.Cron

open Zaowutai.Lib

inductive ExecutionResult
  | success (conversationId : String)
  | retrying (attempt : ℕ)
  | skipped
  | error (message : String)
  deriving DecidableEq, Repr

/-- What an edit of the job changes of its timer; a cron expression without a time zone keeps the
one of the job. -/
structure UpdateCronJobRequest where
  enabled : Option Bool
  schedule : Option CronSchedule
  queueEnabled : Option Bool
  deriving DecidableEq, Repr

/-- A tick up to its last step but for the timer. -/
inductive TickPhase
  | entered
  | loaded (job : CronJob)
  | claiming (job : CronJob)
  | duplicate (job : CronJob) (claimNow : ℤ)
  | executing (job : CronJob)
  | rescheduling (job : CronJob)
  deriving DecidableEq, Repr

/-- The end of a call: it writes the next time of the job and arms the timer.  What a tick writes
belongs to an occurrence of the schedule `origin`. -/
inductive Rearm
  | disable (job : CronJob) (origin : CronSchedule)
  | cancel
  | advance (job : CronJob) (origin : CronSchedule) (scheduledAt : Option ℤ)
  | arm (job : CronJob)
  | track (scheduledAt wakeAt : ℤ)
  deriving DecidableEq, Repr

inductive CronCall
  | tick (scheduledAt : ℤ) (origin : CronSchedule) (phase : TickPhase)
  | update (req : UpdateCronJobRequest)
  | persistUpdate (req : UpdateCronJobRequest) (job : CronJob)
  | remove
  | deleteRow
  | resume
  | inspectRow (job : CronJob) (now : ℤ)
  | rearm (step : Rearm)
  deriving DecidableEq, Repr

/-- The job with its runs and its timer, the calls under way, and two records of the past: the
schedule whose timer fired for an occurrence, and the row as the updates and the occurrences of
its own schedule have left it. -/
structure CronState where
  row : Option CronJob
  runs : CronRepository
  timer : Option CronTimer
  calls : Table ℕ CronCall
  origins : Table ℤ CronSchedule
  expected : Option CronJob

structure CronService where
  lib : CronLibrary
  jobId : String
  instanceId : String

def runLeaseMs : ℤ := 60000

def retryIntervalMs : ℤ := 30000

namespace UpdateCronJobRequest

variable (req : UpdateCronJobRequest)

def scheduleWithExistingTimezone (existing : CronSchedule) : Option CronSchedule :=
  req.schedule.map fun schedule ↦
    match schedule, existing with
    | .cron expr none, .cron _ tz => .cron expr tz
    | _, _ => schedule

def changesNextRun : Bool := req.schedule.isSome || req.enabled.isSome

def applyTo (lib : CronLibrary) (now : ℤ) (job : CronJob) : CronJob :=
  let schedule := (req.scheduleWithExistingTimezone job.schedule).getD job.schedule
  { enabled := req.enabled.getD job.enabled
    schedule
    nextRunAt := if req.changesNextRun then computeNextRun lib schedule now else job.nextRunAt
    queueEnabled := req.queueEnabled.getD job.queueEnabled }

/-- `build_update_params`: only what the edit names is written to the row. -/
def writeTo (job row : CronJob) : CronJob where
  enabled := req.enabled.getD row.enabled
  schedule := if req.schedule.isSome then job.schedule else row.schedule
  nextRunAt := if req.changesNextRun then job.nextRunAt else row.nextRunAt
  queueEnabled := req.queueEnabled.getD row.queueEnabled

end UpdateCronJobRequest

namespace CronState

variable (s : CronState)

def adjusts (job : CronJob) (origin : CronSchedule) : Bool :=
  s.expected.any fun row ↦ row.enabled && row.schedule = job.schedule && row.schedule = origin

def writeRow (job : CronJob) (origin : CronSchedule) (write : CronJob → CronJob) : CronState where
  row := s.row.map write
  runs := s.runs
  timer := s.timer
  calls := s.calls
  origins := s.origins
  expected := if s.adjusts job origin then s.expected.map write else s.expected

end CronState

abbrev CronProgress := CronState × Option CronCall

def CronState.progress (s : CronState) (call : ℕ) (out : CronProgress) : CronState :=
  { out.1 with
    calls := match out.2 with
      | some rest => s.calls.insert call rest
      | none => s.calls.erase call }

theorem CronState.lookup_progress (s : CronState) (call other : ℕ) (out : CronProgress) :
    (s.progress call out).calls.lookup other =
      if other = call then out.2 else s.calls.lookup other := by
  simp only [progress]
  cases out.2 with
  | some rest => exact Table.lookup_insert_eq rest
  | none => exact Table.lookup_erase_eq

namespace CronService

variable (c : CronService) (s : CronState) (now : ℤ) (ok : Bool)

def advanceRearm : Rearm → CronProgress
  | .disable job origin =>
      let disable (row : CronJob) : CronJob := { row with enabled := false, nextRunAt := none }
      (if ok then s.writeRow job origin disable else s, some (.rearm .cancel))
  | .cancel => ({ s with timer := none }, none)
  | .advance job origin scheduledAt =>
      let next := match scheduledAt with
        | some scheduledAt => computeNextRunAfterOccurrence c.lib job.schedule scheduledAt now
        | none => computeNextRun c.lib job.schedule now
      let written := ok && s.row.isSome
      (if written then s.writeRow job origin ({ · with nextRunAt := next }) else s,
        -- A resume gives up when the row cannot be written, a tick goes on.
        if written || scheduledAt.isSome then some (.rearm (.arm { job with nextRunAt := next }))
        else none)
  | .arm job => ({ s with timer := scheduleJob job }, none)
  | .track scheduledAt wakeAt => ({ s with timer := some (.occurrence scheduledAt wakeAt) }, none)

/-- `get_recoverable_run`, where a failure counts as no run. -/
def recoverableRun (at' : ℤ) : Option RecoverableCronRun :=
  if ok then s.runs.getRecoverableRun c.jobId at' else none

def terminalStatus : ExecutionResult → Option CronRunStatus
  | .success _ => some .ok
  | .skipped => some .skipped
  | .error _ => some .error
  | .retrying _ => none

def handleExecutionResult (scheduledAt : ℤ) (origin : CronSchedule) (job : CronJob) :
    ExecutionResult → CronProgress
  | .retrying _ =>
      let out := s.runs.deferRun c.jobId scheduledAt c.instanceId (now + retryIntervalMs) now
      if ok && out.2 then
        ({ s with runs := out.1 }, some (.rearm (.track scheduledAt (now + retryIntervalMs))))
      else (s, none)
  | .success conversationId =>
      finish ⟨c.jobId, scheduledAt, c.instanceId, .ok, some conversationId, none, now, rfl⟩
  | .skipped => finish ⟨c.jobId, scheduledAt, c.instanceId, .skipped, none, none, now, rfl⟩
  | .error message =>
      finish ⟨c.jobId, scheduledAt, c.instanceId, .error, none, some message, now, rfl⟩
where
  finish (params : FinishCronRunParams) : CronProgress :=
    let out := s.runs.finishRun params
    if ok && out.2 then
      ({ s with runs := out.1 }, some (.tick scheduledAt origin (.rescheduling job)))
    else (s, none)

theorem handleExecutionResult_eq (scheduledAt : ℤ) (origin : CronSchedule) (job : CronJob)
    (result : ExecutionResult) :
    ∃ runs rest, (rest = .rearm (.track scheduledAt (now + retryIntervalMs)) ∨
        rest = .tick scheduledAt origin (.rescheduling job)) ∧
      c.handleExecutionResult s now ok scheduledAt origin job result =
        if ok && s.runs.isOwned c.jobId scheduledAt c.instanceId then
          ({ s with runs := runs }, some rest)
        else (s, none) := by
  have hfinish : ∀ params : FinishCronRunParams, params.jobId = c.jobId →
      params.scheduledAt = scheduledAt → params.ownerId = c.instanceId →
        handleExecutionResult.finish s ok scheduledAt origin job params =
          if ok && s.runs.isOwned c.jobId scheduledAt c.instanceId then
            ({ s with runs := (s.runs.finishRun params).1 },
              some (.tick scheduledAt origin (.rescheduling job)))
          else (s, none) := by
    intro params hjob hscheduled howner
    simp only [handleExecutionResult.finish, CronRepository.finishRun,
      CronRepository.updateOwned_snd, hjob, hscheduled, howner]
  cases result with
  | success conversationId => exact ⟨_, _, .inr rfl, hfinish _ rfl rfl rfl⟩
  | skipped => exact ⟨_, _, .inr rfl, hfinish _ rfl rfl rfl⟩
  | error message => exact ⟨_, _, .inr rfl, hfinish _ rfl rfl rfl⟩
  | retrying attempt =>
      refine ⟨(s.runs.deferRun c.jobId scheduledAt c.instanceId (now + retryIntervalMs) now).1, _,
        .inl rfl, ?_⟩
      simp only [handleExecutionResult, CronRepository.deferRun, CronRepository.updateOwned_snd]

def advanceTick (scheduledAt : ℤ) (origin : CronSchedule) (result : ExecutionResult) :
    TickPhase → CronProgress
  | .entered =>
      if !ok then (s, none)
      else
        match s.row with
        | none => ({ s with timer := none }, none)
        | some job => (s, some (.tick scheduledAt origin (.loaded job)))
  | .loaded job =>
      if !ok || !job.enabled then (s, none)
      else (s, some (.tick scheduledAt origin (.claiming job)))
  | .claiming job =>
      if !ok then (s, none)
      else
        let out := s.runs.claimRun
          ⟨c.jobId, scheduledAt, c.instanceId, now, now + runLeaseMs, job.queueEnabled⟩
        let phase : TickPhase := match out.2 with
          | .claimed => .executing job
          | .duplicate => .duplicate job now
          | .queueBusy => .rescheduling job
        ({ s with runs := out.1 }, some (.tick scheduledAt origin phase))
  | .duplicate job claimNow =>
      match c.recoverableRun s ok claimNow with
      | some run => (s, some (.rearm (.track run.scheduledAt run.wakeAt)))
      | none => (s, some (.tick scheduledAt origin (.rescheduling job)))
  | .executing job => c.handleExecutionResult s now ok scheduledAt origin job result
  | .rescheduling job =>
      match c.recoverableRun s ok now with
      | some run => (s, some (.rearm (.track run.scheduledAt run.wakeAt)))
      | none =>
          if job.schedule.isAt then (s, some (.rearm (.disable job origin)))
          else (s, some (.rearm (.advance job origin (some scheduledAt))))

def advance (result : ExecutionResult) : CronCall → CronProgress
  | .tick scheduledAt origin phase => c.advanceTick s now ok scheduledAt origin result phase
  | .update req =>
      match s.row with
      | none => (s, none)
      | some row =>
          let job := req.applyTo c.lib now row
          if ok && (req.schedule.isNone || validateSchedule c.lib job.schedule) then
            (s, some (.persistUpdate req job))
          else (s, none)
  | .persistUpdate req job =>
      if ok && s.row.isSome then
        ({ s with
            row := s.row.map (req.writeTo job)
            expected := s.expected.map (req.writeTo job) }, some (.rearm (.arm job)))
      else (s, none)
  | .remove => ({ s with timer := none }, some .deleteRow)
  | .deleteRow =>
      if ok then ({ s with row := none, runs := s.runs.deleteJob c.jobId, expected := none }, none)
      else (s, none)
  | .resume =>
      match s.row with
      | some job => (s, if ok && job.enabled then some (.inspectRow job now) else none)
      | none => (s, none)
  | .inspectRow job resumedAt =>
      match c.recoverableRun s ok resumedAt with
      | some run => (s, some (.rearm (.track run.scheduledAt run.wakeAt)))
      | none =>
          if job.nextRunAt.any (· < resumedAt) then
            if job.schedule.isAt then (s, some (.rearm (.disable job job.schedule)))
            else (s, some (.rearm (.advance job job.schedule none)))
          else (s, some (.rearm (.arm job)))
  | .rearm step => c.advanceRearm s now ok step

end CronService

inductive CronAction
  | fire (call : ℕ) (now : ℤ)
  | enter (call : ℕ) (c : CronCall)
  | advance (call : ℕ) (now : ℤ) (ok : Bool) (result : ExecutionResult)
  | heartbeat (call : ℕ) (now : ℤ)
  | other (params : ClaimCronRunParams)
  | otherOwner (scheduledAt : ℤ) (ownerId : String) (call : OwnerCall)
  deriving DecidableEq, Repr

def CronCall.isRequest : CronCall → Bool
  | .update _ | .remove | .resume => true
  | .tick _ _ _ | .persistUpdate _ _ | .deleteRow | .inspectRow _ _ | .rearm _ => false

namespace CronService

variable (c : CronService)

def start (userId : String) (job : CronJob) : CronState where
  row := some job
  runs := ⟨AList.insert c.jobId (some userId) ∅, ∅⟩
  timer := scheduleJob job
  calls := ∅
  origins := ∅
  expected := some job

variable (s : CronState)

def fire (call : ℕ) (now : ℤ) (timer : CronTimer) : CronState :=
  let origins := match timer with
    | .schedule schedule nextAt => s.origins.insert nextAt schedule
    | .occurrence _ _ => s.origins
  let origin := (origins.lookup timer.scheduledAt).getD (.at timer.scheduledAt)
  { s with
    timer := timer.rest c.lib now
    origins
    calls := s.calls.insert call (.tick timer.scheduledAt origin .entered) }

/-- A number names at most one call; a step that is not enabled changes nothing. -/
def step (s : CronState) : CronAction → CronState
  | .fire call now =>
      match s.timer, s.calls.lookup call with
      | some timer, none => c.fire s call now timer
      | _, _ => s
  | .enter call request =>
      if (s.calls.lookup call).isNone && request.isRequest then
        { s with calls := s.calls.insert call request }
      else s
  | .advance call now ok result =>
      match s.calls.lookup call with
      | none => s
      | some under => s.progress call (c.advance s now ok result under)
  | .heartbeat call now =>
      match s.calls.lookup call with
      | some (.tick scheduledAt _ (.executing _)) =>
          { s with
            runs := (s.runs.renewRunLease c.jobId scheduledAt c.instanceId (now + runLeaseMs) now).1 }
      | _ => s
  | .other params => { s with runs := (s.runs.claimRun params).1 }
  | .otherOwner scheduledAt ownerId call =>
      { s with runs := (call.perform s.runs c.jobId scheduledAt ownerId).1 }

end CronService

end Zaowutai.Cron
