import Mathlib.Algebra.Group.Int.Defs
import Zaowutai.Team.WorkModel

/-!
# The team run record

A session keeps at most one team run.  Enqueues bind to it while it is active
and open a new one otherwise; the work summaries published by the coordinator
drive its status and the events sent to the clients.
-/

namespace Zaowutai.Team

inductive TeamRunSource
  | userMessage
  | systemLifecycle
  deriving DecidableEq, Repr

inductive TeamRunStatus
  | accepted
  | running
  | cancelling
  | completed
  | cancelled
  | failed
  deriving DecidableEq, Repr

def TeamRunStatus.isActive : TeamRunStatus → Bool
  | accepted | running | cancelling => true
  | completed | cancelled | failed => false

structure TeamRunRecord where
  teamRunId : String
  source : TeamRunSource
  hasUserIntervention : Bool
  targetSlotId : String
  targetRole : TeamRunTargetRole
  status : TeamRunStatus
  startedAtMs : Option ℤ
  completedAtMs : Option ℤ
  cancelReason : Option String
  summary : Option RunWorkSummary
  acceptedEmitted : Bool
  deriving DecidableEq, Repr

def TeamRunRecord.isActive (run : TeamRunRecord) : Bool := run.status.isActive

inductive TeamSlotBlockedReason
  | runtimeStarting
  | runtimeFailed
  | removing
  | sessionStopped
  deriving DecidableEq, Repr

structure TeamSlotWorkPayload where
  slotId : String
  role : TeamRunTargetRole
  state : SlotPhase
  queuedForegroundCount : ℕ
  queuedBackgroundCount : ℕ
  activeTurnId : Option String
  activeTurnStartedAtMs : Option ℤ
  activeTurnElapsedMs : Option ℕ
  activeTurnSlow : Option Bool
  activeTurnSlowThresholdMs : Option ℕ
  blockedReason : Option TeamSlotBlockedReason
  teamRunId : Option String
  deriving DecidableEq, Repr

structure TeamRunPayload where
  teamId : String
  teamRunId : String
  source : TeamRunSource
  hasUserIntervention : Bool
  targetSlotId : String
  targetRole : TeamRunTargetRole
  status : TeamRunStatus
  queuedIntentCount : ℕ
  startingBatchCount : ℕ
  runningBatchCount : ℕ
  activeEnqueueLeaseCount : ℕ
  slotWork : List TeamSlotWorkPayload
  deriving DecidableEq, Repr

def teamRunAcceptedEvent : String := "team.runAccepted"
def teamRunStartedEvent : String := "team.runStarted"
def teamRunUpdatedEvent : String := "team.runUpdated"
def teamRunCompletedEvent : String := "team.runCompleted"
def teamRunCancelledEvent : String := "team.runCancelled"
def teamRunFailedEvent : String := "team.runFailed"

/-- A broadcast of `broadcast_team_run`. -/
structure TeamRunEvent where
  name : String
  payload : TeamRunPayload
  deriving DecidableEq, Repr

def activeTurnSlowThresholdMs : ℕ := 10 * 60 * 1000

def i64Max : ℤ := 2 ^ 63 - 1

def elapsedMs (now startedAt : ℤ) : ℕ := (min (now - startedAt) i64Max).toNat

def RuntimeConstraint.blockedReason : RuntimeConstraint → Option TeamSlotBlockedReason
  | ready => none
  | starting _ => some .runtimeStarting
  | failed _ _ => some .runtimeFailed
  | removing _ => some .removing
  | sessionStopped => some .sessionStopped

def slotPayload (now : ℤ) (slot : SlotWorkSnapshot) : TeamSlotWorkPayload :=
  let activeTurnElapsedMs := slot.activeTurnStartedAtMs.map (elapsedMs now)
  { slotId := slot.slotId
    role := slot.role
    state := slot.state
    queuedForegroundCount := slot.queuedForegroundCount
    queuedBackgroundCount := slot.queuedBackgroundCount
    activeTurnId := slot.activeTurnId
    activeTurnStartedAtMs := slot.activeTurnStartedAtMs
    activeTurnElapsedMs := activeTurnElapsedMs
    activeTurnSlow := activeTurnElapsedMs.map fun elapsed ↦
      decide (activeTurnSlowThresholdMs ≤ elapsed)
    activeTurnSlowThresholdMs := slot.activeTurnId.map fun _ ↦ activeTurnSlowThresholdMs
    blockedReason := slot.runtimeConstraint.blockedReason
    teamRunId := slot.teamRunId }

def RunWorkSummary.noWork (summary : RunWorkSummary) : Bool :=
  summary.queuedIntentCount == 0 && summary.startingBatchCount == 0 &&
    summary.runningBatchCount == 0 && summary.activeEnqueueLeaseCount == 0 &&
      summary.pausedIntentCount == 0

namespace TeamRunRecord

variable (run : TeamRunRecord)

def statusAfter (summary : RunWorkSummary) : TeamRunStatus :=
  if 0 < summary.failedIntentCount then .failed
  else if summary.noWork then
    if run.status = .cancelling then .cancelled else .completed
  else if 0 < summary.runningBatchCount then .running
  else run.status

def summarize (summary : RunWorkSummary) (now : ℤ) : TeamRunRecord :=
  let ends := decide (0 < summary.failedIntentCount) || summary.noWork
  let starts := !ends && decide (0 < summary.runningBatchCount)
  { run with
    summary := some summary
    status := run.statusAfter summary
    completedAtMs := if ends then some now else run.completedAtMs
    startedAtMs := if starts then some (run.startedAtMs.getD now) else run.startedAtMs
    acceptedEmitted := true }

def eventName (next : TeamRunRecord) : String :=
  if !run.acceptedEmitted then teamRunAcceptedEvent
  else if next.status = run.status then teamRunUpdatedEvent
  else match next.status with
    | .failed => teamRunFailedEvent
    | .cancelled => teamRunCancelledEvent
    | .completed => teamRunCompletedEvent
    | .running => teamRunStartedEvent
    | _ => teamRunUpdatedEvent

end TeamRunRecord

/-- The state behind the mutex of the manager, and the run ids drawn so far. -/
structure TeamRunState where
  record : Option TeamRunRecord
  generated : ℕ

structure TeamRunManager where
  teamId : String
  generateId : ℕ → String
  generateId_injective : Function.Injective generateId

namespace TeamRunManager

def initial : TeamRunState := ⟨none, 0⟩

variable (m : TeamRunManager) (state : TeamRunState)

def payload (now : ℤ) (run : TeamRunRecord) (summary : RunWorkSummary) : TeamRunPayload where
  teamId := m.teamId
  teamRunId := run.teamRunId
  source := run.source
  hasUserIntervention := run.hasUserIntervention
  targetSlotId := run.targetSlotId
  targetRole := run.targetRole
  status := run.status
  queuedIntentCount := summary.queuedIntentCount
  startingBatchCount := summary.startingBatchCount
  runningBatchCount := summary.runningBatchCount
  activeEnqueueLeaseCount := summary.activeEnqueueLeaseCount
  slotWork := summary.slots.map (slotPayload now)

def activeRun : Option TeamRunRecord := state.record.filter TeamRunRecord.isActive

def currentActiveRunId : Option String := (activeRun state).map TeamRunRecord.teamRunId

def openRun (source : TeamRunSource) (targetSlotId : String) (targetRole : TeamRunTargetRole) :
    TeamRunState × RunBinding :=
  let run : TeamRunRecord :=
    { teamRunId := m.generateId state.generated
      source := source
      hasUserIntervention := false
      targetSlotId := targetSlotId
      targetRole := targetRole
      status := .accepted
      startedAtMs := none
      completedAtMs := none
      cancelReason := none
      summary := none
      acceptedEmitted := false }
  (⟨some run, state.generated + 1⟩, ⟨some run.teamRunId, true, false⟩)

def bindUserEnqueue (targetSlotId : String) (targetRole : TeamRunTargetRole) :
    TeamRunState × RunBinding :=
  match activeRun state with
  | some run =>
      ({ state with record := some { run with hasUserIntervention := true } },
        ⟨some run.teamRunId, false, true⟩)
  | none => m.openRun state .userMessage targetSlotId targetRole

def bindSystemEnqueue (targetSlotId : String) (targetRole : TeamRunTargetRole) :
    TeamRunState × RunBinding :=
  match activeRun state with
  | some run => (state, ⟨some run.teamRunId, false, false⟩)
  | none => m.openRun state .systemLifecycle targetSlotId targetRole

def applyWorkSummary (summary : RunWorkSummary) (now : ℤ) : TeamRunState × List TeamRunEvent :=
  match state.record.filter fun run ↦ run.teamRunId = summary.teamRunId with
  | none => (state, [])
  | some run =>
      let next := run.summarize summary now
      ({ state with record := some next }, [⟨run.eventName next, m.payload now next summary⟩])

def beginCancel (teamRunId : String) (reason : Option String) (now : ℤ) :
    Except TeamError (TeamRunState × List TeamRunEvent) :=
  match state.record.filter fun run ↦ run.teamRunId = teamRunId && run.isActive with
  | none => .error (.invalidRequest s!"team run is not active: {teamRunId}")
  | some run =>
      let next := { run with status := .cancelling, cancelReason := reason }
      .ok ({ state with record := some next },
        next.summary.toList.map fun summary ↦
          ⟨teamRunUpdatedEvent, m.payload now next summary⟩)

/-- The binding is undone by forgetting the run, whoever opened it. -/
def abortBinding (binding : RunBinding) : TeamRunState :=
  if state.record.any fun run ↦ some run.teamRunId == binding.teamRunId then
    { state with record := none }
  else state

/-- `bind_enqueue` of the run causality port. -/
def bindEnqueue (request : EnqueueRequest) : TeamRunState × RunBinding :=
  match request.binding with
  | .userVisible => m.bindUserEnqueue state request.slotId request.role
  | .activeRunOrBackground => (state, ⟨currentActiveRunId state, false, false⟩)
  | .inheritRunningBatch _ | .background => (state, ⟨none, false, false⟩)
  | .systemInitiated _ => m.bindSystemEnqueue state request.slotId request.role

end TeamRunManager

end Zaowutai.Team
