import Mathlib.Data.Nat.Notation

/-!
# Agent stream events

The events that an agent emits while it processes a message.  An event that
every consumer passes on unread is known by its name only.
-/

namespace Zaowutai.Stream

inductive AgentErrorOwnership
  | aionui
  | userAgent
  | userLlmProvider
  | unknownUpstream
  deriving DecidableEq, Repr

inductive AgentErrorCode
  | aionuiConversationBusy
  | aionuiStreamBroken
  | aionuiStateInconsistent
  | aionuiPermissionError
  | aionuiInternalError
  | workspacePathRuntimeUnavailable
  | userAgentHandshakeFailed
  | userAgentHandshakeTimeout
  | userAgentAcpInitFailed
  | userAgentProtocolMismatch
  | userAgentNotInstalled
  | userAgentStartupFailed
  | userAgentOpenClawGatewayUnreachable
  | userAgentDisconnected
  | userAgentAuthRequired
  | userAgentSessionNotFound
  | userAgentNoPreviousSession
  | userAgentProtocolParseError
  | userAgentInvalidRequest
  | userAgentResourceNotFound
  | userAgentProtocolError
  | userAgentCommandNotFound
  | userAgentMissingEnv
  | userAgentUnsupportedMethod
  | userAgentInvalidParams
  | userLlmProviderAuthFailed
  | userLlmProviderAwsSsoExpired
  | userLlmProviderPermissionDenied
  | userLlmProviderBillingRequired
  | userLlmProviderConfigError
  | userLlmProviderModelNotFound
  | userLlmProviderUnsupportedModel
  | userLlmProviderEndpointNotFound
  | userLlmProviderInvalidRequest
  | userLlmProviderInvalidToolSchema
  | userLlmProviderContextTooLarge
  | userLlmProviderRateLimited
  | userLlmProviderTimeout
  | userLlmProviderNetworkError
  | userLlmProviderEmptyResponse
  | userLlmProviderGatewayError
  | unknownUpstreamError
  deriving DecidableEq, Repr

structure ErrorEventData where
  message : String
  code : Option AgentErrorCode
  ownership : Option AgentErrorOwnership
  detail : Option String
  retryable : Option Bool
  deriving DecidableEq, Repr

inductive ToolCallStatus
  | running
  | completed
  | error
  | canceled
  deriving DecidableEq, Repr

structure ToolCallEventData where
  callId : String
  name : String
  status : ToolCallStatus
  output : Option String
  description : Option String
  deriving DecidableEq, Repr

inductive AcpToolCallStatus
  | pending
  | inProgress
  | completed
  | failed
  deriving DecidableEq, Repr

structure AcpToolCallEventData where
  toolCallId : String
  status : Option AcpToolCallStatus
  title : Option String
  deriving DecidableEq, Repr

inductive ToolGroupStatus
  | pending
  | confirming
  | executing
  | success
  | error
  | canceled
  deriving DecidableEq, Repr

def ToolGroupStatus.isTerminal : ToolGroupStatus → Bool
  | .success | .error | .canceled => true
  | .pending | .confirming | .executing => false

structure ToolGroupEntry where
  callId : String
  name : String
  status : ToolGroupStatus
  description : Option String
  deriving DecidableEq, Repr

/-- The card of a workflow, and the full roster of its agents.  With `settleOnly` the card was not
opened here, and only a stored row may be updated. -/
structure WorkflowProgressData where
  card : ToolCallEventData
  agents : List ToolGroupEntry
  settleOnly : Bool
  deriving DecidableEq, Repr

inductive TipType
  | error
  | info
  | success
  | warning
  deriving DecidableEq, Repr

structure TipsEventData where
  content : String
  tipType : TipType
  code : Option String
  supersedesKey : Option String
  deriving DecidableEq, Repr

structure ThinkingEventData where
  content : String
  subject : Option String
  status : Option String
  deriving DecidableEq, Repr

structure PlanEventData where
  sessionId : Option String
  entries : List String
  deriving DecidableEq, Repr

inductive MessageLifecyclePhase
  | queued
  | started
  | completed
  | cancelled
  deriving DecidableEq, Repr

inductive PassedOn
  | start
  | agentStatus
  | skillSuggest
  | acpModelInfo
  | acpModeInfo
  | acpConfigOption
  | acpSessionInfo
  | acpContextUsage
  | acpTerminalOutput
  | acpPromptHookWarning
  | slashCommandsUpdated
  | availableCommands
  | system
  | requestTrace
  | sessionAssigned
  deriving DecidableEq, Repr

inductive AgentStreamEvent
  | text (content : String)
  | thinking (data : ThinkingEventData)
  | toolCall (data : ToolCallEventData)
  | acpToolCall (data : AcpToolCallEventData)
  | toolGroup (entries : List ToolGroupEntry)
  | workflowProgress (data : WorkflowProgressData)
  | tips (data : TipsEventData)
  | plan (data : PlanEventData)
  | permission
  | acpPermission
  | ask
  | cronTrigger
  /-- Ends the current bubble within a turn. -/
  | segmentBreak
  /-- The id of the turn in the backend, for the rows that are stored. -/
  | backendTurnBound (backendTurnId : String)
  | acpDialectSignal
  | messageLifecycle (clientMsgId : String) (phase : MessageLifecyclePhase)
  | passedOn (event : PassedOn)
  | finish
  | error (data : ErrorEventData)
  deriving DecidableEq, Repr

/-- A relay ends with these. -/
def AgentStreamEvent.isTerminal : AgentStreamEvent → Bool
  | .finish | .error _ => true
  | _ => false

end Zaowutai.Stream
