import Mathlib.Data.Int.Notation
import Mathlib.Data.Nat.Notation

/-!
# Work of a team session

The data that the work coordinator, the run manager and the event loops of a
team exchange: where an intent comes from, which lane it waits in, what state
it is in, and the batches, leases and summaries made of intents.
-/

namespace Zaowutai.Team

inductive TeamRunTargetRole
  | lead
  | teammate
  deriving DecidableEq, Repr

inductive TeamError
  | agentNotFound (slotId : String)
  | invalidRequest (message : String)
  deriving DecidableEq, Repr

/-- Lane of a queued intent, declared highest priority first. -/
inductive WorkPriority
  | foreground
  | control
  | directed
  | background
  deriving DecidableEq, Repr

inductive WorkSource
  | userMessage
  | userCommand
  | userIntervention
  | leadIntervention
  | mcpSendMessage
  | mcpShutdownRequest
  | spawnWelcome
  | teamMembershipChanged
  | spawnAttachFailure
  | deliveryFailureNotification
  | idleNotification
  | interruptedNotification
  | shutdownRejected
  | recoveryDrain
  deriving DecidableEq, Repr

namespace WorkSource

def priority : WorkSource → WorkPriority
  | userMessage | userCommand | userIntervention | leadIntervention => .foreground
  | mcpShutdownRequest | shutdownRejected => .control
  | mcpSendMessage => .directed
  | spawnWelcome | teamMembershipChanged | spawnAttachFailure | deliveryFailureNotification
  | idleNotification | interruptedNotification | recoveryDrain => .background

def resumesPausedSlot : WorkSource → Bool
  | userMessage | userCommand | userIntervention | leadIntervention => true
  | _ => false

def requiresMailboxMessage : WorkSource → Bool
  | teamMembershipChanged | idleNotification => false
  | _ => true

/-- The name that `{:?}` prints. -/
def debugName : WorkSource → String
  | userMessage => "UserMessage"
  | userCommand => "UserCommand"
  | userIntervention => "UserIntervention"
  | leadIntervention => "LeadIntervention"
  | mcpSendMessage => "McpSendMessage"
  | mcpShutdownRequest => "McpShutdownRequest"
  | spawnWelcome => "SpawnWelcome"
  | teamMembershipChanged => "TeamMembershipChanged"
  | spawnAttachFailure => "SpawnAttachFailure"
  | deliveryFailureNotification => "DeliveryFailureNotification"
  | idleNotification => "IdleNotification"
  | interruptedNotification => "InterruptedNotification"
  | shutdownRejected => "ShutdownRejected"
  | recoveryDrain => "RecoveryDrain"

/-- The sources that `next` never merges with other messages. -/
def isIsolated : WorkSource → Bool
  | userCommand | leadIntervention => true
  | _ => false

end WorkSource

inductive RuntimeConstraint
  | ready
  | starting (operationId : ℕ)
  | failed (operationId : ℕ) (classification : String)
  | removing (operationId : ℕ)
  | sessionStopped
  deriving DecidableEq, Repr

structure RuntimeRestartGate where
  operationId : ℕ
  previousConstraint : RuntimeConstraint
  deriving DecidableEq, Repr

inductive RuntimeRestartRejection
  | busy
  | removing
  | sessionStopped
  deriving DecidableEq, Repr

inductive SlotPhase
  | idle
  | queued
  | starting
  | running
  | paused
  | blocked
  deriving DecidableEq, Repr

inductive WorkIntentState
  | queued
  | starting (batchId : String) (operationId : ℕ)
  | running (batchId : String) (operationId : ℕ) (turnId : String)
  | completed
  | failed (classification : String)
  | cancelled (classification : String)
  deriving DecidableEq, Repr

namespace WorkIntentState

def isTerminal : WorkIntentState → Bool
  | completed | failed _ | cancelled _ => true
  | _ => false

def isCancelled : WorkIntentState → Bool
  | cancelled _ => true
  | _ => false

def isFailed : WorkIntentState → Bool
  | failed _ => true
  | _ => false

def startingBatch : WorkIntentState → Option String
  | starting batchId _ => some batchId
  | _ => none

def runningBatch : WorkIntentState → Option String
  | running batchId _ _ => some batchId
  | _ => none

def claim : WorkIntentState → Option (String × ℕ)
  | starting batchId operationId | running batchId operationId _ => some (batchId, operationId)
  | _ => none

@[simp] theorem claim_queued : queued.claim = none := rfl

@[simp] theorem isTerminal_queued : queued.isTerminal = false := rfl

theorem claim_eq_none_iff (state : WorkIntentState) :
    state.claim = none ↔ state = queued ∨ state.isTerminal = true := by
  cases state <;> simp [claim, isTerminal]

theorem not_terminal_of_claim {state : WorkIntentState} {c : String × ℕ}
    (h : state.claim = some c) : state.isTerminal = false := by
  cases state <;> simp_all [claim, isTerminal]

end WorkIntentState

structure WorkIntent where
  intentId : String
  sessionGeneration : String
  slotId : String
  role : TeamRunTargetRole
  source : WorkSource
  priority : WorkPriority
  mailboxMessageId : Option String
  teamRunId : Option String
  createdAtMs : ℤ
  state : WorkIntentState
  deriving DecidableEq, Repr

inductive CausalBinding
  | userVisible
  | inheritRunningBatch (callerSlotId : String)
  | activeRunOrBackground
  | background
  | systemInitiated (inheritFrom : Option String)
  deriving DecidableEq, Repr

structure EnqueueRequest where
  slotId : String
  role : TeamRunTargetRole
  source : WorkSource
  binding : CausalBinding
  deriving DecidableEq, Repr

structure EnqueueLease where
  leaseId : String
  sessionGeneration : String
  slotId : String
  role : TeamRunTargetRole
  source : WorkSource
  teamRunId : Option String
  deriving DecidableEq, Repr

structure RunBinding where
  teamRunId : Option String
  createdNewRun : Bool
  userIntervention : Bool
  deriving DecidableEq, Repr

structure WorkBatch where
  batchId : String
  sessionGeneration : String
  slotId : String
  intentIds : List String
  mailboxMessageIds : List String
  observedMessageIds : List String
  highestPriority : WorkPriority
  teamRunIds : List String
  operationId : ℕ
  isCommand : Bool
  deriving DecidableEq, Repr

inductive ReconcileDecision
  | claim (batch : WorkBatch)
  | waitingForCompletion
  | blocked (constraint : RuntimeConstraint)
  | settleSignals (intentIds : List String)
  | quiescent
  deriving DecidableEq, Repr

inductive CommitResult
  | committed
  | staleOwner
  | rejected
  deriving DecidableEq, Repr

structure BatchFailureResult where
  commitResult : CommitResult
  exhaustedMessageIds : List String
  deriving DecidableEq, Repr

inductive StartCommitResult
  | accepted
  | cancelImmediately
  | staleOwner
  deriving DecidableEq, Repr

inductive EnqueueDisposition
  | accepted
  | queued
  | blockedRuntimeStarting
  deriving DecidableEq, Repr

structure SlotWorkSnapshot where
  slotId : String
  role : TeamRunTargetRole
  state : SlotPhase
  queuedForegroundCount : ℕ
  queuedBackgroundCount : ℕ
  activeBatch : Option WorkBatch
  activeTurnId : Option String
  activeTurnStartedAtMs : Option ℤ
  runtimeConstraint : RuntimeConstraint
  teamRunId : Option String
  deriving DecidableEq, Repr

structure RunWorkSummary where
  teamRunId : String
  queuedIntentCount : ℕ
  startingBatchCount : ℕ
  runningBatchCount : ℕ
  activeEnqueueLeaseCount : ℕ
  pausedIntentCount : ℕ
  failedIntentCount : ℕ
  slots : List SlotWorkSnapshot
  deriving DecidableEq, Repr

structure EnqueueCommit where
  intentId : String
  teamRunId : Option String
  disposition : EnqueueDisposition
  slot : SlotWorkSnapshot
  deriving DecidableEq, Repr

structure ReconcileProjection where
  createdRecoveryIntentIds : List String
  retainedIntentIds : List String
  clearedStaleIntentIds : List String
  deriving DecidableEq, Repr

structure BatchCancelTarget where
  batch : WorkBatch
  turnId : Option String
  deriving DecidableEq, Repr

structure ObserveMessagesResult where
  batchId : Option String
  observedCount : ℕ
  deriving DecidableEq, Repr

structure BatchCompletionResult where
  commitResult : CommitResult
  ackMessageIds : List String
  teamRunIds : List String
  deriving DecidableEq, Repr

inductive McpRefreshDisposition
  | unchanged
  | restartNow
  | deferred
  deriving DecidableEq, Repr

structure BatchInterruptMetadata where
  reason : Option String
  replacementMessageId : String
  deriving DecidableEq, Repr

structure InterruptBatchResult where
  commitResult : CommitResult
  terminalMessageIds : List String
  deriving DecidableEq, Repr

structure PauseWorkResult where
  cancelTarget : Option BatchCancelTarget
  slot : SlotWorkSnapshot
  deriving DecidableEq, Repr

structure RemoveWorkResult where
  cancelTarget : Option BatchCancelTarget
  terminalMessageIds : List String
  affectedRunSummaries : List RunWorkSummary
  deriving DecidableEq, Repr

structure CancelRunWorkResult where
  cancelTargets : List BatchCancelTarget
  terminalMessageIds : List String
  summary : RunWorkSummary
  deriving DecidableEq, Repr

structure RuntimeConstraintUpdate where
  slot : SlotWorkSnapshot
  terminalMessageIds : List String
  affectedRunSummaries : List RunWorkSummary
  deriving DecidableEq, Repr

inductive PortCall
  | bindEnqueue (request : EnqueueRequest)
  | bindSystemEnqueue (request : EnqueueRequest)
  | abortBinding (binding : RunBinding)
  | applyWorkSummary (summary : RunWorkSummary)
  | publishSlotWork (snapshot : SlotWorkSnapshot)
  deriving DecidableEq, Repr

end Zaowutai.Team
