import Mathlib.Data.List.Infix
import Zaowutai.Channel.Callbacks
import Zaowutai.Lib.LossyText

/-!
# The relay of an agent's reply

The relay hands the events of one turn to a chat.  WeChat gets a message for
every run of text between tool calls.  On the other platforms one placeholder
message is edited, at most once within the throttle, and a last time at the end.
-/

namespace Zaowutai.Channel

open Zaowutai.Lib

inductive PluginType
  | telegram
  | lark
  | dingtalk
  | weixin
  | slack
  | discord
  deriving DecidableEq, Repr

inductive ToolCallStatus
  | running
  | completed
  | error
  | canceled
  deriving DecidableEq, Repr

inductive SilentEvent
  | start
  | tips
  | toolGroup
  | agentStatus
  | plan
  | permission
  | acpPermission
  | ask
  | acpToolCall
  | availableCommands
  | skillSuggest
  | cronTrigger
  | acpModelInfo
  | acpModeInfo
  | acpConfigOption
  | acpSessionInfo
  | acpContextUsage
  | acpTerminalOutput
  | acpPromptHookWarning
  | system
  | requestTrace
  | slashCommandsUpdated
  | sessionAssigned
  | segmentBreak
  | backendTurnBound
  | workflowProgress
  | acpDialectSignal
  | messageLifecycle
  deriving DecidableEq, Repr

inductive AgentStreamEvent
  | text (content : String)
  | finish
  | error (message : String)
  | thinking (content : String)
  | toolCall (name : String) (status : ToolCallStatus)
  | silent (event : SilentEvent)
  deriving DecidableEq, Repr

inductive StreamAction
  | appendText (chunk : String)
  | finish
  | error (message : String)
  | thinking (content : String)
  | toolCall (name status : String)
  deriving DecidableEq, Repr

def ToolCallStatus.debug : ToolCallStatus → String
  | running => "Running"
  | completed => "Completed"
  | error => "Error"
  | canceled => "Canceled"

def processStreamEvent : AgentStreamEvent → Option StreamAction
  | .text content => some (.appendText content)
  | .finish => some .finish
  | .error message => some (.error message)
  | .thinking content => some (.thinking content)
  | .toolCall name status => some (.toolCall name status.debug)
  | .silent _ => none

inductive OutgoingMessageType
  | text
  | image
  | file
  | buttons
  deriving DecidableEq, Repr

/-- The fields that the relay sets. -/
structure UnifiedOutgoingMessage where
  messageType : OutgoingMessageType
  text : Option String
  buttons : Option (List (List ActionButton))

def buildThinkingMessage : UnifiedOutgoingMessage := ⟨.text, some "⏳ Thinking...", none⟩

def buildFinalMessage (text : String) : UnifiedOutgoingMessage where
  messageType := .buttons
  text := some text
  buttons := some [[⟨"🔄 Regenerate", "chat.regenerate", none⟩,
    ⟨"▶️ Continue", "chat.continue", none⟩, ⟨"➕ New Session", "session.new", none⟩]]

def buildStreamingMessage (text : String) : UnifiedOutgoingMessage := ⟨.text, some text, none⟩

def errorMessage (message : String) : UnifiedOutgoingMessage :=
  ⟨.text, some ("❌ " ++ message), none⟩

structure RelayConfig where
  ownerUserId : String
  platform : PluginType
  pluginId : String
  chatId : String
  throttleMs : ℤ
  deriving DecidableEq, Repr

inductive SenderCall
  | sendMessage (ownerUserId pluginId chatId : String) (message : UnifiedOutgoingMessage)
  | editMessage (ownerUserId pluginId chatId messageId : String)
      (message : UnifiedOutgoingMessage)

inductive RecvResult
  | ok (event : AgentStreamEvent)
  | closed
  | lagged (n : ℕ)
  deriving DecidableEq, Repr

structure Received where
  result : RecvResult
  askedAt : ℤ
  editedAt : ℤ
  deriving DecidableEq, Repr

def isBlank (text : String) : Bool := text.toList.all isWhitespace

section Relay

variable (format : String → PluginType → String) (config : RelayConfig)

def RelayConfig.send (message : UnifiedOutgoingMessage) : SenderCall :=
  .sendMessage config.ownerUserId config.pluginId config.chatId message

def RelayConfig.edit (messageId : String) (message : UnifiedOutgoingMessage) : SenderCall :=
  .editMessage config.ownerUserId config.pluginId config.chatId messageId message

structure TextBuffer where
  text : String
  hasContent : Bool
  deriving DecidableEq, Repr

def finalSend (buffer : TextBuffer) : List SenderCall :=
  if buffer.hasContent ∧ !isBlank buffer.text then
    [config.send (buildFinalMessage (format buffer.text config.platform))]
  else []

/-- One round of the loop of `run_weixin`, which leaves it with no buffer. -/
def stepWeixin (buffer : TextBuffer) : RecvResult → List SenderCall × Option TextBuffer
  | .ok event =>
      match processStreamEvent event with
      | some (.appendText chunk) => ([], some ⟨buffer.text ++ chunk, true⟩)
      | some (.thinking _) => ([], some buffer)
      | some (.toolCall _ _) =>
          if buffer.hasContent ∧ !isBlank buffer.text then
            ([config.send (buildStreamingMessage (format buffer.text config.platform))],
              some ⟨"", false⟩)
          else ([], some buffer)
      | some .finish => (finalSend format config buffer, none)
      | some (.error message) => ([config.send (errorMessage message)], none)
      | none => ([], some buffer)
  | .closed => (finalSend format config buffer, none)
  | .lagged _ => ([], some buffer)

def loopWeixin (buffer : TextBuffer) : List Received → List SenderCall
  | [] => []
  | received :: rest =>
      let (calls, next) := stepWeixin format config buffer received.result
      calls ++ next.elim [] (loopWeixin · rest)

def runWeixin (received : List Received) : List SenderCall :=
  loopWeixin format config ⟨"", false⟩ received

def sendFinalEdit (buffer : TextBuffer) (messageId : String) : List SenderCall :=
  if buffer.hasContent then
    [config.edit messageId (buildFinalMessage (format buffer.text config.platform))]
  else []

/-- One round of the loop of `run_editable`, with the time of the last edit. -/
def stepEditable (messageId : String) (buffer : TextBuffer) (lastEdit : ℤ) (received : Received) :
    List SenderCall × Option (TextBuffer × ℤ) :=
  match received.result with
  | .ok event =>
      match processStreamEvent event with
      | some (.appendText chunk) =>
          let buffer : TextBuffer := ⟨buffer.text ++ chunk, true⟩
          if config.throttleMs ≤ received.askedAt - lastEdit then
            ([config.edit messageId
                (buildStreamingMessage (format buffer.text config.platform))],
              some (buffer, received.editedAt))
          else ([], some (buffer, lastEdit))
      | some (.thinking _) => ([], some (buffer, lastEdit))
      | some (.toolCall name _) =>
          ([config.edit messageId (buildStreamingMessage ("⏳ " ++ name ++ "..."))],
            some (buffer, lastEdit))
      | some .finish => (sendFinalEdit format config buffer messageId, none)
      | some (.error message) => ([config.edit messageId (errorMessage message)], none)
      | none => ([], some (buffer, lastEdit))
  | .closed => (sendFinalEdit format config buffer messageId, none)
  | .lagged _ => ([], some (buffer, lastEdit))

def loopEditable (messageId : String) (buffer : TextBuffer) (lastEdit : ℤ) :
    List Received → List SenderCall
  | [] => []
  | received :: rest =>
      let (calls, next) := stepEditable format config messageId buffer lastEdit received
      calls ++ next.elim [] fun next ↦ loopEditable messageId next.1 next.2 rest

/-- The placeholder is sent at `now`, and named by the sender unless sending it fails. -/
def runEditable (placeholder : Option String) (now : ℤ) (received : List Received) :
    List SenderCall :=
  config.send buildThinkingMessage ::
    placeholder.elim [] fun messageId ↦
      loopEditable format config messageId ⟨"", false⟩ (now - config.throttleMs) received

def run (placeholder : Option String) (now : ℤ) (received : List Received) : List SenderCall :=
  if config.platform = .weixin then runWeixin format config received
  else runEditable format config placeholder now received

end Relay

end Zaowutai.Channel
