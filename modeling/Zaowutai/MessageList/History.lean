import Zaowutai.Lib.Runs
import Zaowutai.MessageList.TMessage

/-!
# Loaded history

A page that is loaded from the history is put in front of the current list, or
takes the place of the part of it that it covers.  Tips that supersede each
other are folded into one card afterwards.
-/

namespace Zaowutai.MessageList

open Zaowutai.Lib

def supersedesKeyOf (message : TMessage) : Option String :=
  match message.content with
  | .tips content => truthy content.supersedesKey
  | _ => none

/-- `latestByKey` -/
def latestByKey (messages : List TMessage) (key : String) : Option TMessage :=
  messages.reverse.find? fun message ↦ supersedesKeyOf message = some key

def withLatest (messages : List TMessage) (key : String) (message : TMessage) : TMessage :=
  match latestByKey messages key with
  | none => message
  | some latest => { message with content := latest.content }

/-- The first tip of a run takes the content of the last one, and the others are left out. -/
def foldTips (messages : List TMessage) : List String → List TMessage → List TMessage
  | _, [] => []
  | seen, message :: rest =>
      match supersedesKeyOf message with
      | none => message :: foldTips messages seen rest
      | some key =>
          if key ∈ seen then foldTips messages seen rest
          else withLatest messages key message :: foldTips messages (key :: seen) rest

def foldSupersededTips (messages : List TMessage) : List TMessage :=
  if messages.all fun message ↦ (supersedesKeyOf message).isNone then messages
  else
    let folded := foldTips messages [] messages
    if folded.length = messages.length then messages else folded

/-- A message with a `msgId` is known by its type and `msgId`, written with a colon between. -/
inductive MergeKey where
  | msgId (type : MessageType) (msgId : String)
  | id (id : String)
  deriving DecidableEq, Repr

def getMessageMergeKey (message : TMessage) : MergeKey :=
  match truthy message.msgId with
  | some msgId => .msgId message.type msgId
  | none => .id message.id

def preferTextMessageVersion (primary secondary : TMessage)
    (primaryContent secondaryContent : TextContent) : TMessage :=
  let primaryIsReplace : Bool := primaryContent.replace = some true
  let secondaryIsReplace : Bool := secondaryContent.replace = some true
  if primaryIsReplace ≠ secondaryIsReplace then
    if primaryIsReplace then primary else secondary
  else if utf16Length primaryContent.content < utf16Length secondaryContent.content then secondary
  else primary

def preferPersistedOrLiveMessage (persisted live : TMessage) : TMessage :=
  match persisted.content, live.content with
  | .text persistedContent, .text liveContent =>
      preferTextMessageVersion persisted live persistedContent liveContent
  | _, _ => persisted

def matchedBy (list : List TMessage) (message : TMessage) : Bool :=
  list.any fun other ↦
    other.id = message.id || getMessageMergeKey other = getMessageMergeKey message

def liveOf (list : List TMessage) (message : TMessage) : Option TMessage :=
  (list.reverse.find? fun live ↦ live.id = message.id).or
    (list.reverse.find? fun live ↦ getMessageMergeKey live = getMessageMergeKey message)

def mergeMessage (list : List TMessage) (message : TMessage) : TMessage :=
  match liveOf list message with
  | some live => preferPersistedOrLiveMessage message live
  | none => message

def mergeLoadedPageWithCurrent (conversationId : String) (messages currentList : List TMessage) :
    List TMessage :=
  let sameConversation := currentList.filter (·.conversationId = conversationId)
  if sameConversation.isEmpty then foldSupersededTips messages
  else
    let mergedMessages := messages.map (mergeMessage sameConversation)
    let liveOnly := sameConversation.filter fun message ↦ !matchedBy messages message
    foldSupersededTips (mergedMessages ++ liveOnly)

def prependHistoryMessages (currentList messages : List TMessage) : List TMessage :=
  let uniqueHistory := messages.filter fun message ↦ !matchedBy currentList message
  if uniqueHistory.isEmpty then currentList else foldSupersededTips (uniqueHistory ++ currentList)

end Zaowutai.MessageList
