import Zaowutai.Stream.StreamPersistence

/-!
# The stream relay

A relay consumes the events of one send: it forwards them to the clients,
stores them, and sums up what it has seen.  Text is cut into segments, each
with a message id of its own.
-/

namespace Zaowutai.Stream

open Zaowutai.Conversation

/-- Number of text chunks to accumulate before flushing to the database. -/
def flushInterval : ℕ := 20

/-- What happened during one agent send attempt. -/
structure TurnAttemptSummary where
  sawVisibleOutput : Bool
  sawToolOrSideEffect : Bool
  persistedAssistantOutput : Bool
  terminalError : Option ErrorEventData
  terminalErrorDeferred : Bool
  needsAuth : Bool
  deriving DecidableEq, Repr

namespace TurnAttemptSummary

def default : TurnAttemptSummary := ⟨false, false, false, none, false, false⟩

def safeToAutoReplay (attempt : TurnAttemptSummary) : Bool :=
  !attempt.sawVisibleOutput && !attempt.sawToolOrSideEffect && !attempt.persistedAssistantOutput

def merge (attempt other : TurnAttemptSummary) : TurnAttemptSummary where
  sawVisibleOutput := attempt.sawVisibleOutput || other.sawVisibleOutput
  sawToolOrSideEffect := attempt.sawToolOrSideEffect || other.sawToolOrSideEffect
  persistedAssistantOutput := attempt.persistedAssistantOutput || other.persistedAssistantOutput
  needsAuth := attempt.needsAuth || other.needsAuth
  terminalError := other.terminalError.or attempt.terminalError
  terminalErrorDeferred := attempt.terminalErrorDeferred || other.terminalErrorDeferred

end TurnAttemptSummary

inductive RelayTerminal
  | finish
  | error (code : Option AgentErrorCode) (retryable : Option Bool)
  | channelClosed
  deriving DecidableEq, Repr

namespace RelayTerminal

def isError : RelayTerminal → Bool
  | .error _ _ => true
  | .finish | .channelClosed => false

def code : RelayTerminal → Option AgentErrorCode
  | .error code _ => code
  | .finish | .channelClosed => none

def retryable : RelayTerminal → Option Bool
  | .error _ retryable => retryable
  | .finish | .channelClosed => none

end RelayTerminal

structure RelayOutcome where
  systemResponses : List String
  terminal : RelayTerminal
  attempt : TurnAttemptSummary
  deriving DecidableEq, Repr

/-- The data of a frame `message.stream`; the last is the frame `turn.completed`. -/
inductive Payload
  | event (event : AgentStreamEvent)
  | thinkingDone
  | toolCall (card : ToolCallEventData)
  | toolGroup (agents : List ToolGroupEntry)
  /-- The text of a message is replaced. -/
  | content (text : String) (hidden : Bool)
  | system (response : String)
  | turnCompleted
  deriving DecidableEq, Repr

structure MiddlewareResult where
  message : String
  systemResponses : List String
  deriving DecidableEq, Repr

/-- What a relay is made with.  The middleware is a function of the final text. -/
structure StreamRelay where
  msgId : String
  turnId : String
  process : String → MiddlewareResult
  completeTurn : Bool
  deferCleanTerminalErrors : Bool

structure RelayState where
  adapter : StreamPersistenceAdapter
  /-- The frames that have been sent, each with its message id. -/
  broadcasts : List (String × Payload)
  fullText : String
  /-- The ids of the segments that have been stored. -/
  textSegments : List String
  activeText : Option TextSegmentState
  activeThinking : Option ThinkingSegmentState
  usedPrimarySegmentMsgId : Bool
  attempt : TurnAttemptSummary

inductive Received
  | event (event : AgentStreamEvent) (runtime : ConversationRuntimeState)
  /-- The receiver was too slow, and these events are lost to it. -/
  | lagged (missed : List AgentStreamEvent)
  | closed (runtime : ConversationRuntimeState)

namespace RelayState

def start (adapter : StreamPersistenceAdapter) : RelayState :=
  ⟨adapter, [], "", [], none, none, false, .default⟩

variable (s : RelayState)

def broadcast (msgId : String) (payload : Payload) : RelayState :=
  { s with broadcasts := s.broadcasts ++ [(msgId, payload)] }

def mark (mark : TurnAttemptSummary → TurnAttemptSummary) : RelayState :=
  { s with attempt := mark s.attempt }

def completeActiveThinking (lifecycle : RuntimeLifecycleState) : RelayState :=
  match s.activeThinking with
  | none => s
  | some segment =>
      { s.broadcast segment.id .thinkingDone with
        activeThinking := none
        adapter := s.adapter.persistThinkingSegment lifecycle segment }

def closeActiveTextSegment (lifecycle : RuntimeLifecycleState) (status : MessageStatus) :
    RelayState :=
  match s.activeText with
  | none => s
  | some segment =>
      let (adapter, stored) := s.adapter.finalizeTextSegment lifecycle segment status
      { s with
        activeText := none
        adapter
        textSegments := s.textSegments ++ stored.toList }

def closeSegments (lifecycle : RuntimeLifecycleState) (status : MessageStatus) : RelayState :=
  (s.completeActiveThinking lifecycle).closeActiveTextSegment lifecycle status

end RelayState

namespace StreamRelay

variable (r : StreamRelay) (s : RelayState)

def mintSegmentMsgId : String × RelayState :=
  if s.usedPrimarySegmentMsgId then
    let (id, adapter) := s.adapter.mintMsgId
    (id, { s with adapter })
  else (r.msgId, { s with usedPrimarySegmentMsgId := true })

def forwardToWebsocket (event : AgentStreamEvent) : RelayState := s.broadcast r.msgId (.event event)

def forwardWorkflowProgress (data : WorkflowProgressData) : RelayState :=
  let s := s.broadcast r.msgId (.toolCall data.card)
  if data.agents.isEmpty then s else s.broadcast r.msgId (.toolGroup data.agents)

def openText : TextSegmentState × RelayState :=
  match s.activeText with
  | some segment => (segment, s)
  | none =>
      let (id, s) := r.mintSegmentMsgId s
      (⟨id, "", false, 0⟩, s)

def openThinking : ThinkingSegmentState × RelayState :=
  match s.activeThinking with
  | some segment => (segment, s)
  | none =>
      let (id, s) := r.mintSegmentMsgId s
      (⟨id, ""⟩, s)

def consumeText (lifecycle : RuntimeLifecycleState) (content : String) : RelayState :=
  let s := s.completeActiveThinking lifecycle
  let s := s.mark fun attempt ↦
    { attempt with sawVisibleOutput := attempt.sawVisibleOutput || content ≠ "" }
  let (segment, s) := r.openText s
  let s := s.broadcast segment.id (.event (.text content))
  let segment := { segment with
    buffer := segment.buffer ++ content
    flushCounter := segment.flushCounter + 1 }
  let s := { s with fullText := s.fullText ++ content }
  if flushInterval ≤ segment.flushCounter then
    let (adapter, segment) := s.adapter.flushTextSegment lifecycle segment
    { s with adapter, activeText := some { segment with flushCounter := 0 } }
  else { s with activeText := some segment }

def consumeThinking (lifecycle : RuntimeLifecycleState) (data : ThinkingEventData) : RelayState :=
  if data.status = some "done" then s.completeActiveThinking lifecycle
  else if data.content = "" && data.subject.isNone then s
  else
    let s := s.closeActiveTextSegment lifecycle .finish
    let s := s.mark fun attempt ↦
      { attempt with sawVisibleOutput := attempt.sawVisibleOutput || data.content ≠ "" }
    let (segment, s) := r.openThinking s
    { s.broadcast segment.id (.event (.thinking data)) with
      activeThinking := some { segment with buffer := segment.buffer ++ data.content } }

def consumeTool (lifecycle : RuntimeLifecycleState) (event : AgentStreamEvent)
    (persist : StreamPersistenceAdapter → StreamPersistenceAdapter) : RelayState :=
  let s := s.mark fun attempt ↦ { attempt with sawToolOrSideEffect := true }
  let s := r.forwardToWebsocket (s.closeSegments lifecycle .finish) event
  { s with adapter := persist s.adapter }

/-- A running workflow leaves the segments open. -/
def consumeWorkflowProgress (lifecycle : RuntimeLifecycleState) (data : WorkflowProgressData) :
    RelayState :=
  if data.settleOnly then
    let (adapter, present) := s.adapter.settleToolCallIfPresent lifecycle data.card
    let s := { s with adapter }
    if present then r.forwardWorkflowProgress s data else s
  else
    let s := r.forwardWorkflowProgress s data
    let adapter := s.adapter.persistToolCall lifecycle data.card
    { s with adapter :=
        if data.agents.isEmpty then adapter else adapter.persistToolGroup lifecycle data.agents }

def consumeTips (lifecycle : RuntimeLifecycleState) (data : TipsEventData) : RelayState :=
  let s := s.mark fun attempt ↦
    { attempt with
      sawVisibleOutput := attempt.sawVisibleOutput || data.tipType = .success
      needsAuth := attempt.needsAuth || data.code = some "ACP_EMPTY_TURN_NEEDS_AUTH" }
  let s := r.forwardToWebsocket s (.tips data)
  if data.tipType = .error then s
  else { s with adapter := s.adapter.persistTip lifecycle data }

def consumeQuestion (event : AgentStreamEvent) : RelayState :=
  r.forwardToWebsocket (s.mark fun attempt ↦ { attempt with sawToolOrSideEffect := true }) event

def consumeEvent (lifecycle : RuntimeLifecycleState) : AgentStreamEvent → RelayState
  | .text content => r.consumeText s lifecycle content
  | .thinking data => r.consumeThinking s lifecycle data
  | .toolCall data =>
      r.consumeTool s lifecycle (.toolCall data) (·.persistToolCall lifecycle data)
  | .acpToolCall data =>
      r.consumeTool s lifecycle (.acpToolCall data) (·.persistAcpToolCall lifecycle data)
  | .toolGroup entries =>
      r.consumeTool s lifecycle (.toolGroup entries) (·.persistToolGroup lifecycle entries)
  | .workflowProgress data => r.consumeWorkflowProgress s lifecycle data
  | .tips data => r.consumeTips s lifecycle data
  | .permission => r.consumeQuestion s .permission
  | .acpPermission => r.consumeQuestion s .acpPermission
  | .ask => r.consumeQuestion s .ask
  | .cronTrigger => r.consumeQuestion s .cronTrigger
  | .plan data =>
      let s := r.forwardToWebsocket s (.plan data)
      { s with adapter := s.adapter.persistPlan lifecycle data r.turnId }
  | .segmentBreak => s.closeSegments lifecycle .finish
  | .backendTurnBound backendTurnId =>
      { s with adapter := s.adapter.setBackendTurnId backendTurnId }
  | .acpDialectSignal | .messageLifecycle _ _ => s
  | .passedOn event => r.forwardToWebsocket s (.passedOn event)
  | .finish | .error _ => s

def terminalStatus : RelayTerminal → MessageStatus
  | .error _ _ => .error
  | .finish | .channelClosed => .finish

def terminalFromEvent : AgentStreamEvent → RelayTerminal
  | .error data => .error data.code data.retryable
  | .finish => .finish
  | _ => .channelClosed

def sendSystemResponses (responses : List String) : RelayState :=
  responses.foldl (fun s response ↦
    let (id, adapter) := s.adapter.mintMsgId
    { s with adapter }.broadcast id (.system response)) s

def finalize (lifecycle : RuntimeLifecycleState) (error : Option ErrorEventData)
    (terminal : RelayTerminal) : RelayState × List String :=
  if s.fullText ≠ "" then
    let processed := r.process s.fullText
    let finalText := trim processed.message
    let hidden : Bool := finalText = ""
    let rewriteSegments := processed.message ≠ s.fullText || hidden
    let (adapter, overrides) := s.adapter.persistFinalText lifecycle s.textSegments
      (terminalStatus terminal) finalText hidden rewriteSegments
    let s := { s with
      adapter
      broadcasts := s.broadcasts ++
        overrides.map fun override ↦ (override.msgId, .content override.text override.hidden) }
    (sendSystemResponses s processed.systemResponses, processed.systemResponses)
  else
    match error with
    | some data => ({ s with adapter := s.adapter.persistErrorTip lifecycle data }, [])
    | none => (s, [])

def conclude (lifecycle : RuntimeLifecycleState) (deleting : Bool) (event : Option AgentStreamEvent)
    (terminal : RelayTerminal) : RelayState × RelayOutcome :=
  let error := match event with
    | some (.error data) => some data
    | _ => none
  let s := if deleting then s else s.closeSegments lifecycle (terminalStatus terminal)
  let s := match event with
    | some event => r.forwardToWebsocket s event
    | none => s
  let s := s.mark fun attempt ↦ { attempt with terminalError := error.or attempt.terminalError }
  let (s, systemResponses) := if deleting then (s, []) else r.finalize s lifecycle error terminal
  let s := if r.completeTurn && !deleting then s.broadcast r.msgId .turnCompleted else s
  (s, ⟨systemResponses, terminal, { s.attempt with
    persistedAssistantOutput := s.attempt.persistedAssistantOutput || s.fullText ≠ "" }⟩)

def defersCleanError (terminal : RelayTerminal) : Bool :=
  r.deferCleanTerminalErrors && terminal.isError && terminal.retryable = some true &&
    terminal.code ≠ some .userLlmProviderModelNotFound && s.attempt.safeToAutoReplay

def consumeTerminal (runtime : ConversationRuntimeState) (event : AgentStreamEvent) :
    RelayState × RelayOutcome :=
  let terminal := terminalFromEvent event
  let conversationId := s.adapter.conversationId
  if r.defersCleanError s terminal then
    let s := match event with
      | .error data => s.mark fun attempt ↦
          { attempt with terminalError := some data, terminalErrorDeferred := true }
      | _ => s
    (s, ⟨[], terminal, s.attempt⟩)
  else
    r.conclude s (runtime.lifecycleFor conversationId)
      (decide (conversationId ∈ runtime.deletingConversations)) (some event) terminal

def consume (s : RelayState) : List Received → RelayState × Option RelayOutcome
  | [] => (s, none)
  | .lagged _ :: received => consume s received
  | .closed runtime :: _ =>
      let conversationId := s.adapter.conversationId
      let (s, outcome) := r.conclude s (runtime.lifecycleFor conversationId)
        (decide (conversationId ∈ runtime.deletingConversations)) none .channelClosed
      (s, some outcome)
  | .event event runtime :: received =>
      if event.isTerminal then
        let (s, outcome) := r.consumeTerminal s runtime event
        (s, some outcome)
      else if s.adapter.conversationId ∈ runtime.deletingConversations then consume s received
      else
        consume (r.consumeEvent s (runtime.lifecycleFor s.adapter.conversationId) event) received

end StreamRelay

end Zaowutai.Stream
