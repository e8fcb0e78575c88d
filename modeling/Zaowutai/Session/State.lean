import Mathlib.Data.Int.Notation
import Mathlib.Data.List.Infix
import Mathlib.Data.Nat.Notation
import Zaowutai.Lib.Table

/-!
# Session events

The canonical event vocabulary of a session.  A variant carries the payload
that the reducer or the fold loop reads; what they only pass through (display
text, tool arguments, catalog entries) is left out.
-/

namespace Zaowutai.Session

def u32Max : ℕ := 4294967295

inductive PermissionKind
  | tool
  | auth
  deriving DecidableEq, Repr

inductive SubagentStatus
  | pendingInit
  | running
  | interrupted
  | completed
  | errored
  | shutdown
  deriving DecidableEq, Repr

def SubagentStatus.isTerminal : SubagentStatus → Bool
  | .interrupted | .completed | .errored | .shutdown => true
  | .pendingInit | .running => false

def SubagentStatus.isActive : SubagentStatus → Bool
  | .pendingInit | .running => true
  | .interrupted | .completed | .errored | .shutdown => false

@[simp] theorem SubagentStatus.isTerminal_eq_not_isActive (status : SubagentStatus) :
    status.isTerminal = !status.isActive := by
  cases status <;> rfl

inductive TruncationKind
  | maxTokens
  | contextWindow
  | maxTurns
  | budget
  | truncated
  deriving DecidableEq, Repr

inductive StopReason
  | endTurn
  | truncated (kind : TruncationKind)
  | refused (category : Option String)
  deriving DecidableEq, Repr

inductive CancelReason
  | userCancel
  | bargeIn
  | socketAbort
  | toolDenyChain
  deriving DecidableEq, Repr

inductive TurnOutcome
  | completed (stopReason : StopReason)
  | cancelled (reason : CancelReason)
  | failed
  | endTurn
  deriving DecidableEq, Repr

structure ExitStatusLite where
  code : Option ℤ
  signal : Option ℤ
  deriving DecidableEq, Repr

inductive WorkflowLoopState
  | start
  | progress
  | done
  deriving DecidableEq, Repr

structure SubagentDetail where
  ref : String
  label : Option String
  loopState : Option WorkflowLoopState
  model : Option String
  tokens : Option ℕ
  toolCalls : Option ℕ
  lastToolName : Option String
  deriving DecidableEq, Repr

inductive SessionEvent
  | turnStarted (epoch : ℕ)
  | cancel
  | messageDelta (text : String)
  | thoughtDelta
  | toolCall
  | toolResult
  | heartbeat
  | turnResult (isError : Bool) (apiErrorStatus : Option ℕ) (resultText : String) (epoch : ℕ)
      (outcome : TurnOutcome)
  | detached (exit : Option ExitStatusLite)
  | adapterSpecific
  | plan
  | permission (requestId : String) (kind : PermissionKind)
  | permissionResolved (requestId : String) (kind : PermissionKind)
  | ask (requestId : String)
  | askResolved (requestId : String)
  | promptAccepted
  | usageDelta
  | provisioning
  | rewound
  | configChanged
  | catalogUpdated
  | subagentUpdate (ref : String) (label : Option String) (status : SubagentStatus)
      (parentRef : Option String)
  | subagentDetail (detail : SubagentDetail)
  | workflowPhase
  | notice
  | toolOutputDelta
  | turnDiffUpdated
  | itemStarted
  | itemCompleted
  | messageFinalized
  | snapshot
  | lagged
  | backendSuspended
  | checkpointList
  | sessionInfo
  | sessionTitle
  | backendBound (backendSessionId : Option String)
  | backendTurnBound
  | messageLifecycle
  deriving DecidableEq, Repr

inductive Outcome
  | crashed
  | cleanNoResult
  | followResult
  deriving DecidableEq, Repr

/-!
## Session states

The four states of a session and the views derived from them: what the user
may send, queue or cancel, whether an answer is required, and whether work is
in progress in the foreground (`Running`) or the background (the workflow
roster).
-/

open Zaowutai.Lib

/-- Ref-counted flag set: resolving one request does not unlock, only the whole set
reaching zero does. -/
structure RequiresActionSet where
  waitingOnApproval : ℕ
  waitingOnAuth : ℕ
  waitingOnQuestion : ℕ
  deriving DecidableEq, Repr

def RequiresActionSet.default : RequiresActionSet := ⟨0, 0, 0⟩

structure SubagentState where
  ref : String
  label : Option String
  status : SubagentStatus
  parentRef : Option String
  deriving DecidableEq, Repr

inductive ErrorReason
  | crashed
  | emptyTurn
  | backend (apiErrorStatus : Option ℕ) (message : String)
  deriving DecidableEq, Repr

structure RunningTurn where
  sinceEpoch : ℕ
  sawSubstantiveOutput : Bool
  terminalResultSeen : Bool
  requiresAction : RequiresActionSet
  subagents : List SubagentState
  deriving DecidableEq, Repr

def RunningTurn.fresh (epoch : ℕ) : RunningTurn where
  sinceEpoch := epoch
  sawSubstantiveOutput := false
  terminalResultSeen := false
  requiresAction := .default
  subagents := []

inductive SessionState
  | starting
  | running (turn : RunningTurn)
  | error (reason : ErrorReason)
  | idle
  deriving DecidableEq, Repr

def canSendMessage : SessionState → Bool
  | .idle => true
  | _ => false

def isRequiresAction : SessionState → Bool
  | .running turn =>
      decide (0 < turn.requiresAction.waitingOnApproval) ||
        decide (0 < turn.requiresAction.waitingOnAuth) ||
          decide (0 < turn.requiresAction.waitingOnQuestion)
  | _ => false

def canQueueMessage (state : SessionState) (acceptsProactiveInput : Bool) : Bool :=
  acceptsProactiveInput && (match state with | .running _ => true | _ => false) &&
    !isRequiresAction state

def canCancel : SessionState → Bool
  | .starting | .running _ => true
  | .error _ | .idle => false

def anySubagentActive (subagents : List SubagentState) : Bool :=
  subagents.any fun s ↦ s.status.isActive

def hasForegroundActivity (state : SessionState) : Bool :=
  match state with
  | .starting => true
  | .running turn => !isRequiresAction state || anySubagentActive turn.subagents
  | .error _ | .idle => false

inductive WorkflowTaskStatus
  | running
  | completed
  | failed
  | stopped
  deriving DecidableEq, Repr

def WorkflowTaskStatus.isTerminal : WorkflowTaskStatus → Bool
  | .running => false
  | .completed | .failed | .stopped => true

structure WorkflowAgentState where
  refId : String
  taskStatus : WorkflowTaskStatus
  hasLifecycle : Bool
  retain : Option Bool
  label : Option String
  state : Option WorkflowLoopState
  model : Option String
  lastToolName : Option String
  tokens : Option ℕ
  toolCalls : Option ℕ
  deriving DecidableEq, Repr

abbrev WorkflowRoster := Table String WorkflowAgentState

def backgroundActive (roster : WorkflowRoster) : Bool :=
  roster.values.any fun w ↦ w.hasLifecycle && !w.taskStatus.isTerminal

/-- `str::contains` on the list of characters. -/
def containsText (text pattern : String) : Bool :=
  decide (pattern.toList <:+: text.toList)

def isUnrecoverableResumeError : ErrorReason → Bool
  | .backend _ message =>
      containsText message "No conversation found" ||
        containsText message "error_during_execution" ||
          containsText message "no rollout found for thread id" ||
            containsText message "thread not found:"
  | .crashed | .emptyTurn => false

end Zaowutai.Session
