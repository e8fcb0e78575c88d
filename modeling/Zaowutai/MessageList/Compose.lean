import Zaowutai.Lib.Positions
import Zaowutai.MessageList.TMessage

/-!
# Composing live messages

A message updates the card it belongs to or is appended.  An index tells where
the cards are; it is built from the list once for each flush and is updated by
hand as the messages of the flush are composed.
-/

namespace Zaowutai.MessageList

open Zaowutai.Lib

inductive Slot where
  | msgId
  | callId
  | toolCallId
  | permissionCallId
  | terminalId
  deriving DecidableEq, Repr

structure MessageIndex where
  msgIdIndex : Table String ℕ
  callIdIndex : Table String ℕ
  toolCallIdIndex : Table String ℕ
  permissionCallIdIndex : Table String ℕ
  terminalIdIndex : Table String ℕ

namespace MessageIndex

def empty : MessageIndex := ⟨∅, ∅, ∅, ∅, ∅⟩

def get (index : MessageIndex) : Slot → Table String ℕ
  | .msgId => index.msgIdIndex
  | .callId => index.callIdIndex
  | .toolCallId => index.toolCallIdIndex
  | .permissionCallId => index.permissionCallIdIndex
  | .terminalId => index.terminalIdIndex

def set (index : MessageIndex) (key : Slot × String) (i : ℕ) : MessageIndex :=
  match key with
  | (.msgId, k) => { index with msgIdIndex := index.msgIdIndex.insert k i }
  | (.callId, k) => { index with callIdIndex := index.callIdIndex.insert k i }
  | (.toolCallId, k) => { index with toolCallIdIndex := index.toolCallIdIndex.insert k i }
  | (.permissionCallId, k) =>
      { index with permissionCallIdIndex := index.permissionCallIdIndex.insert k i }
  | (.terminalId, k) => { index with terminalIdIndex := index.terminalIdIndex.insert k i }

def setAll (index : MessageIndex) (keys : List (Slot × String)) (i : ℕ) : MessageIndex :=
  keys.foldl (fun index key ↦ index.set key i) index

def lookup (index : MessageIndex) (key : Slot × String) : Option ℕ :=
  (index.get key.1).lookup key.2

def find (index : MessageIndex) (list : List TMessage) (key : Slot × String) :
    Option (ℕ × TMessage) :=
  (index.lookup key).bind fun i ↦ list[i]?.map fun existing ↦ (i, existing)

end MessageIndex

section Keys

variable (message : TMessage)

/-- All frames of a turn share a `msgId`; a type with a place of its own has its own name space. -/
def getMessageIndexKey : Option String :=
  (truthy message.msgId).map fun msgId ↦
    match message.content with
    | .thinking _ => "thinking:" ++ msgId
    | .plan _ => "plan:" ++ msgId
    | _ => msgId

def msgIdKey : List (Slot × String) := ((getMessageIndexKey message).map (Slot.msgId, ·)).toList

/-- The key of the card itself. -/
def ownKey : List (Slot × String) :=
  match message.content with
  | .toolCall content => ((truthy content.callId).map (Slot.callId, ·)).toList
  | .acpToolCall content => ((truthy content.update.toolCallId).map (Slot.toolCallId, ·)).toList
  | .permission content => ((truthy content.callId).map (Slot.permissionCallId, ·)).toList
  | .acpTerminalOutput content => ((truthy content.terminalId).map (Slot.terminalId, ·)).toList
  | _ => []

def indexKeys : List (Slot × String) := msgIdKey message ++ ownKey message

end Keys

def buildMessageIndex (list : List TMessage) : MessageIndex :=
  list.zipIdx.foldl (fun index (msg, i) ↦ index.setAll (indexKeys msg) i) .empty

inductive Effect where
  | keep
  | append (message : TMessage) (recorded : List (Slot × String))
  | replace (i : ℕ) (message : TMessage)
  | regroup (list : List TMessage)

namespace Effect

def apply (list : List TMessage) (index : MessageIndex) : Effect → List TMessage × MessageIndex
  | keep => (list, index)
  | append message recorded => (list ++ [message], index.setAll recorded list.length)
  | replace i message => (list.set i message, index)
  | regroup result =>
      (result, { buildMessageIndex result with terminalIdIndex := index.terminalIdIndex })

end Effect

/-- `logDroppedToolCallWithoutCallId` -/
def droppedToolCallWithoutCallId (message : TMessage) : Bool :=
  match message.content with
  | .toolCall content => (truthy content.callId).isNone
  | _ => false

section Arms

variable (message last : TMessage) (list : List TMessage)
  (find : Slot × String → Option (ℕ × TMessage))

def composeSupersedingTip (key : String) : Effect :=
  let supersedes (item : TMessage) : Bool :=
    match item.content with
    | .tips content => content.supersedesKey = some key
    | _ => false
  match list.zipIdx.find? fun entry ↦ supersedes entry.1 with
  | some (existing, existingIdx) => .replace existingIdx (existing.spread message)
  | none => .append message (msgIdKey message)

def composeToolCall (content : ToolCallContent) (callId : String) : Effect :=
  match find (.callId, callId) with
  | some (existingIdx, existingMsg) =>
      match existingMsg.content with
      | .toolCall existing =>
          .replace existingIdx { existingMsg with content := .toolCall (existing.spread content) }
      | _ => .append message ((.callId, callId) :: msgIdKey message)
  | none => .append message ((.callId, callId) :: msgIdKey message)

/-- One card for each terminal; the `msgId` of a new card is not recorded. -/
def composeTerminalOutput (terminalId : String) : Effect :=
  match find (.terminalId, terminalId) with
  | some (existingIdx, existingMsg) =>
      match existingMsg.content with
      | .acpTerminalOutput _ =>
          .replace existingIdx { existingMsg with content := message.content }
      | _ => .append message [(.terminalId, terminalId)]
  | none => .append message [(.terminalId, terminalId)]

def composeAcpToolCall (content : ToolCallUpdate) (toolCallId : String) : Effect :=
  match find (.toolCallId, toolCallId) with
  | some (existingIdx, existingMsg) =>
      match existingMsg.content with
      | .acpToolCall existing =>
          .replace existingIdx
            { existingMsg with content := .acpToolCall (mergeAcpToolCallContent existing content) }
      | _ =>
          .append (sanitizeMessageForList message) ((.toolCallId, toolCallId) :: msgIdKey message)
  | none =>
      .append (sanitizeMessageForList message) ((.toolCallId, toolCallId) :: msgIdKey message)

def composePermission (callId : String) : Effect :=
  match find (.permissionCallId, callId) with
  | some (existingIdx, existingMsg) =>
      match existingMsg.content with
      | .permission _ => .replace existingIdx (existingMsg.spread message)
      | _ => .append message ((.permissionCallId, callId) :: msgIdKey message)
  | none => .append message ((.permissionCallId, callId) :: msgIdKey message)

def indexedAtText (msgId : String) : Bool :=
  match find (.msgId, msgId) with
  | some (_, existingMsg) => existingMsg.type = .text
  | none => false

def composeTextChunk (content : TextContent) (msgId : String) : Effect :=
  match last.content with
  | .text existing =>
      if last.msgId = message.msgId then
        .replace (list.length - 1)
          { last with content := .text (mergeTextMessageContent existing content) }
      else .append message [(.msgId, msgId)]
  | _ => .append message [(.msgId, msgId)]

def composeText (content : TextContent) (msgId : String) : Effect :=
  if indexedAtText find msgId &&
      (message.position = some .right || content.teammateMessage = some true) then .keep
  else composeTextChunk message last list content msgId

/-- A thought is merged with the chunk right before it. -/
def composeThinkingChunk (content : ThinkingContent) (msgId : String) : Effect :=
  match last.content with
  | .thinking existing =>
      if last.msgId = message.msgId then
        .replace (list.length - 1) { last with
          content := .thinking { existing with
            content := existing.content ++ content.content
            subject := (truthy content.subject).or existing.subject } }
      else .append message [(.msgId, "thinking:" ++ msgId)]
  | _ => .append message [(.msgId, "thinking:" ++ msgId)]

/-- The end of a thought settles the last thought of the turn. -/
def composeThinking (content : ThinkingContent) (msgId : String) : Effect :=
  if content.status = .done then
    match find (.msgId, "thinking:" ++ msgId) with
    | some (existingIdx, existingMsg) =>
        match existingMsg.content with
        | .thinking existing =>
            .replace existingIdx { existingMsg with
              content := .thinking { existing with
                status := .done
                duration := content.duration
                subject := (truthy content.subject).or existing.subject } }
        | _ => composeThinkingChunk message last list content msgId
    | none => composeThinkingChunk message last list content msgId
  else composeThinkingChunk message last list content msgId

def composePlan (msgId : String) : Effect :=
  match find (.msgId, "plan:" ++ msgId) with
  | some (existingIdx, existingMsg) =>
      match existingMsg.content with
      | .plan _ => .replace existingIdx { existingMsg with content := message.content }
      | _ => .append message [(.msgId, "plan:" ++ msgId)]
  | none => .append message [(.msgId, "plan:" ++ msgId)]

def composeAfterLast : Effect :=
  if last.msgId ≠ message.msgId ∨ last.type ≠ message.type then
    .append message (msgIdKey message)
  else .replace (list.length - 1) (last.spread message)

/-- A message of another type takes the place of what was last indexed under its `msgId`. -/
def composeOther : Effect :=
  match truthy message.msgId with
  | some msgId =>
      match find (.msgId, msgId) with
      | some (existingIdx, existingMsg) => .replace existingIdx (existingMsg.spread message)
      | none => composeAfterLast message last list
  | none => composeAfterLast message last list

def composeArm : Effect :=
  match message.content with
  | .toolGroup tools =>
      match composeToolGroup message tools list with
      | none => .keep
      | some result => .regroup result
  | .tips content =>
      match truthy content.supersedesKey with
      | some key => composeSupersedingTip message list key
      | none => composeOther message last list find
  | .toolCall content =>
      match truthy content.callId with
      | some callId => composeToolCall message find content callId
      | none => composeOther message last list find
  | .acpTerminalOutput content =>
      match truthy content.terminalId with
      | some terminalId => composeTerminalOutput message find terminalId
      | none => composeOther message last list find
  | .acpToolCall content =>
      match truthy content.update.toolCallId with
      | some toolCallId => composeAcpToolCall message find content toolCallId
      | none => composeOther message last list find
  | .permission content =>
      match truthy content.callId with
      | some callId => composePermission message find callId
      | none => composeOther message last list find
  | .text content =>
      match truthy message.msgId with
      | some msgId => composeText message last list find content msgId
      | none => composeOther message last list find
  | .thinking content =>
      match truthy message.msgId with
      | some msgId => composeThinking message last list find content msgId
      | none => composeOther message last list find
  | .plan _ =>
      match truthy message.msgId with
      | some msgId => composePlan message find msgId
      | none => composeOther message last list find
  | _ => composeOther message last list find

/-- The first message of an empty list is recorded under its `msgId` only. -/
def composeEffect : Effect :=
  if droppedToolCallWithoutCallId message then .keep
  else
    match list.getLast? with
    | none =>
        let firstMessage := sanitizeMessageForList message
        .append firstMessage (msgIdKey firstMessage)
    | some last => composeArm message last list find

end Arms

def composeMessageWithIndex (message : TMessage) (list : List TMessage) (index : MessageIndex) :
    List TMessage × MessageIndex :=
  (composeEffect message list (index.find list)).apply list index

/-- A message that waits for the next flush, to be added or to be composed. -/
structure PendingItem where
  message : TMessage
  add : Bool

def PendingItem.effect (item : PendingItem) (list : List TMessage)
    (find : Slot × String → Option (ℕ × TMessage)) : Effect :=
  if item.add then
    if droppedToolCallWithoutCallId item.message then .keep
    else
      let msg := sanitizeMessageForList item.message
      .append msg (indexKeys msg)
  else composeEffect item.message list find

def mergeItem (state : List TMessage × MessageIndex) (item : PendingItem) :
    List TMessage × MessageIndex :=
  (item.effect state.1 (state.2.find state.1)).apply state.1 state.2

def flush (list : List TMessage) (index : MessageIndex) (pending : List PendingItem) :
    List TMessage × MessageIndex :=
  pending.foldl mergeItem (list, index)

def flushAll (list : List TMessage) (flushes : List (List PendingItem)) : List TMessage :=
  flushes.foldl (fun list pending ↦ (flush list (buildMessageIndex list) pending).1) list

end Zaowutai.MessageList
