import Mathlib.Data.List.Basic
import Zaowutai.Lib.Table

/-!
# Messages of a conversation

A message has columns of its own and a content that depends on its type.  The
properties of a record that no function reads are kept together as its `rest`,
by name and JSON text.  An optional property is absent or has a value.
-/

namespace Zaowutai.MessageList

open Zaowutai.Lib

/-- The properties of a record that are only carried along. -/
abbrev Fields := Table String String

/-- `{ ...existing, ...incoming }` -/
def Fields.spread (existing incoming : Fields) : Fields := incoming ∪ existing

/-- A string that counts as given; the empty one does not. -/
def truthy (value : Option String) : Option String := value.filter (· ≠ "")

inductive Position where
  | left
  | right
  | center
  | pop
  deriving DecidableEq, Repr

structure TextContent where
  content : String
  replace : Option Bool
  teammateMessage : Option Bool
  rest : Fields

structure TipsContent where
  content : String
  supersedesKey : Option String
  rest : Fields

structure ToolCallContent where
  callId : Option String
  rest : Fields

structure Tool where
  callId : String
  rest : Fields

structure Confirmation where
  callId : Option String
  rest : Fields

structure AcpImageOutput where
  path : String
  mimeType : String
  source : String
  deriving DecidableEq, Repr

inductive RawResult where
  | text (value : String)
  | other (json : String)
  deriving DecidableEq, Repr

structure AcpRawOutput where
  result : Option RawResult
  savedPath : Option String
  image : Option AcpImageOutput
  resultOmitted : Option Bool
  resultOmittedReason : Option String
  resultBytes : Option ℕ
  rest : Fields

structure ToolUpdate where
  toolCallId : Option String
  rawOutput : Option AcpRawOutput
  raw_output : Option AcpRawOutput
  rest : Fields

structure ToolCallUpdate where
  update : ToolUpdate
  rest : Fields

inductive ThinkingStatus where
  | thinking
  | done
  deriving DecidableEq, Repr

structure ThinkingContent where
  content : String
  subject : Option String
  duration : Option ℤ
  status : ThinkingStatus
  rest : Fields

structure TerminalContent where
  terminalId : Option String
  rest : Fields

inductive Content where
  | text (content : TextContent)
  | tips (content : TipsContent)
  | toolCall (content : ToolCallContent)
  | toolGroup (tools : List Tool)
  | agentStatus (fields : Fields)
  | permission (content : Confirmation)
  | acpPermission (fields : Fields)
  | ask (fields : Fields)
  | acpToolCall (content : ToolCallUpdate)
  | plan (fields : Fields)
  | thinking (content : ThinkingContent)
  | availableCommands (fields : Fields)
  | acpTerminalOutput (content : TerminalContent)

inductive MessageType where
  | text
  | tips
  | toolCall
  | toolGroup
  | agentStatus
  | permission
  | acpPermission
  | ask
  | acpToolCall
  | plan
  | thinking
  | availableCommands
  | acpTerminalOutput
  deriving DecidableEq, Repr

def Content.type : Content → MessageType
  | .text _ => .text
  | .tips _ => .tips
  | .toolCall _ => .toolCall
  | .toolGroup _ => .toolGroup
  | .agentStatus _ => .agentStatus
  | .permission _ => .permission
  | .acpPermission _ => .acpPermission
  | .ask _ => .ask
  | .acpToolCall _ => .acpToolCall
  | .plan _ => .plan
  | .thinking _ => .thinking
  | .availableCommands _ => .availableCommands
  | .acpTerminalOutput _ => .acpTerminalOutput

structure TMessage where
  id : String
  msgId : Option String
  conversationId : String
  position : Option Position
  content : Content
  rest : Fields

def TMessage.type (message : TMessage) : MessageType := message.content.type

/-- `{ ...existing, ...incoming }`; the content of the incoming message is the content. -/
def TMessage.spread (existing incoming : TMessage) : TMessage where
  id := incoming.id
  msgId := incoming.msgId.or existing.msgId
  conversationId := incoming.conversationId
  position := incoming.position.or existing.position
  content := incoming.content
  rest := existing.rest.spread incoming.rest

def mergeTextMessageContent (existing incoming : TextContent) : TextContent where
  content :=
    if incoming.replace = some true then incoming.content else existing.content ++ incoming.content
  replace := if incoming.replace = some true then some true else none
  teammateMessage := incoming.teammateMessage.or existing.teammateMessage
  rest := existing.rest.spread incoming.rest

/-- The properties of a tool call that an update names replace the old ones. -/
def ToolCallContent.spread (existing incoming : ToolCallContent) : ToolCallContent where
  callId := incoming.callId.or existing.callId
  rest := existing.rest.spread incoming.rest

def Tool.spread (existing incoming : Tool) : Tool where
  callId := incoming.callId
  rest := existing.rest.spread incoming.rest

section Sanitize

def utf16Length (value : String) : ℕ :=
  value.toList.foldl (fun n c ↦ n + if c.toNat < 0x10000 then 1 else 2) 0

def startsWith (value start : String) : Bool := start.toList.isPrefixOf value.toList

def endsWith (value ending : String) : Bool := ending.toList.isSuffixOf value.toList

def inlineImageResultLimit : ℕ := 64 * 1024

def isProbablyInlineImageResult (value : String) : Bool :=
  inlineImageResultLimit < utf16Length value &&
    (startsWith value "iVBORw0KGgo" || startsWith value "/9j/" || startsWith value "UklGR" ||
      startsWith value "data:image/")

def mimeTypeFromImagePath (path : String) : String :=
  let lower := path.toLower
  if endsWith lower ".jpg" || endsWith lower ".jpeg" then "image/jpeg"
  else if endsWith lower ".webp" then "image/webp"
  else if endsWith lower ".gif" then "image/gif"
  else "image/png"

/-- An image is left out of the result, and a reference to its file takes its place. -/
def sanitizeAcpRawOutput (rawOutput : AcpRawOutput) : AcpRawOutput :=
  match rawOutput.result with
  | some (.text result) =>
      if isProbablyInlineImageResult result then
        { rawOutput with
          result := none
          resultOmitted := some true
          resultOmittedReason :=
            some ((truthy rawOutput.resultOmittedReason).getD "image_base64")
          resultBytes :=
            some ((rawOutput.resultBytes.filter (· ≠ 0)).getD (utf16Length result))
          image := rawOutput.image.or ((truthy rawOutput.savedPath).map fun path ↦
            ⟨path, mimeTypeFromImagePath path, "codex_image_generation"⟩) }
      else rawOutput
  | _ => rawOutput

def sanitizeAcpToolUpdate (update : ToolUpdate) : ToolUpdate :=
  { update with
    rawOutput := update.rawOutput.map sanitizeAcpRawOutput
    raw_output := update.raw_output.map sanitizeAcpRawOutput }

def sanitizeAcpToolCallContent (content : ToolCallUpdate) : ToolCallUpdate :=
  { content with update := sanitizeAcpToolUpdate content.update }

def ToolUpdate.spread (existing incoming : ToolUpdate) : ToolUpdate where
  toolCallId := incoming.toolCallId.or existing.toolCallId
  rawOutput := incoming.rawOutput.or existing.rawOutput
  raw_output := incoming.raw_output.or existing.raw_output
  rest := existing.rest.spread incoming.rest

def mergeAcpToolCallContent (existing incoming : ToolCallUpdate) : ToolCallUpdate where
  update := sanitizeAcpToolUpdate (existing.update.spread incoming.update)
  rest := existing.rest.spread incoming.rest

def sanitizeMessageForList (message : TMessage) : TMessage :=
  match message.content with
  | .acpToolCall content =>
      { message with content := .acpToolCall (sanitizeAcpToolCallContent content) }
  | _ => message

end Sanitize

section ToolGroup

/-- `new Map(…)`: a repeated key keeps its place and takes the later value. -/
def toolMap (tools : List Tool) : List Tool :=
  tools.foldl (fun remaining tool ↦
    if remaining.any (·.callId = tool.callId) then
      remaining.map fun other ↦ if other.callId = tool.callId then tool else other
    else remaining ++ [tool]) []

def updateTools (remaining : List Tool) : List Tool → List Tool × List Tool
  | [] => ([], remaining)
  | tool :: tools =>
      match remaining.find? (·.callId = tool.callId) with
      | none =>
          let (updated, left) := updateTools remaining tools
          (tool :: updated, left)
      | some newToolData =>
          let (updated, left) :=
            updateTools (remaining.filter (·.callId ≠ tool.callId)) tools
          (tool.spread newToolData :: updated, left)

def updateToolGroups (remaining : List Tool) : List TMessage → List TMessage × List Tool
  | [] => ([], remaining)
  | message :: list =>
      match message.content with
      | .toolGroup tools =>
          let (updated, left) := updateTools remaining tools
          let (updatedList, left) := updateToolGroups left list
          ({ message with content := .toolGroup updated } :: updatedList, left)
      | _ =>
          let (updatedList, left) := updateToolGroups remaining list
          (message :: updatedList, left)

/-- `composeMessage` for a group of tools, `none` when the list is returned as it is. -/
def composeToolGroup (message : TMessage) (tools : List Tool) (list : List TMessage) :
    Option (List TMessage) :=
  let remaining := toolMap tools
  if remaining.isEmpty then none
  else
    let (updatedList, left) := updateToolGroups remaining list
    if left.isEmpty then some updatedList
    else some (updatedList ++ [{ message with content := .toolGroup left }])

end ToolGroup

end Zaowutai.MessageList
