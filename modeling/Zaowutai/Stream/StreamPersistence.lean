import Mathlib.Data.List.Nodup
import Zaowutai.Conversation.RuntimeState
import Zaowutai.Stream.Events

/-!
# The messages of the repository

Rows are keyed by their id, over all conversations.  A write either succeeds
or leaves the rows as they are; a caller logs a failure and goes on.
-/

namespace Zaowutai.Stream

inductive MessageType
  | text
  | thinking
  | toolCall
  | acpToolCall
  | toolGroup
  | plan
  | tips
  deriving DecidableEq, Repr

inductive MessageStatus
  | work
  | finish
  | error
  | pending
  deriving DecidableEq, Repr

/-- The documents that a row's content is made of, apart from a text. -/
inductive Document
  | toolCall (data : ToolCallEventData)
  | acpToolCall (data : AcpToolCallEventData)
  | toolGroup (entries : List ToolGroupEntry)
  | plan (data : PlanEventData) (turnId : String)
  | tips (data : TipsEventData)
  | error (data : ErrorEventData)
  deriving DecidableEq, Repr

/-- A JSON object: its member `content`, where it is a text, and the documents that the other
members come from, later ones patching earlier ones. -/
structure Content where
  text : Option String
  documents : List Document
  deriving DecidableEq, Repr

/-- No document has a member `content` when it patches another. -/
def Content.patch (old new : Content) : Content :=
  ⟨old.text, old.documents ++ new.documents⟩

structure MessageRow where
  id : String
  conversationId : String
  msgId : Option String
  type : MessageType
  content : Content
  status : Option MessageStatus
  hidden : Bool
  backendTurnId : Option String
  group : type = .toolGroup → msgId = some id
  deriving DecidableEq, Repr

structure MessageRowUpdate where
  content : Option Content
  status : Option MessageStatus
  hidden : Option Bool
  deriving DecidableEq, Repr

def MessageRow.update (updates : MessageRowUpdate) (row : MessageRow) : MessageRow :=
  { row with
    content := updates.content.getD row.content
    status := updates.status.or row.status
    hidden := updates.hidden.getD row.hidden }

def MessageRow.merge (new old : MessageRow) : MessageRow :=
  { old with
    content := old.content.patch new.content
    status :=
      if (old.status = some .finish ∨ old.status = some .error) ∧ new.status = some .work then
        old.status
      else new.status
    hidden := new.hidden
    backendTurnId := old.backendTurnId.or new.backendTurnId }

structure MessageStore where
  rows : List MessageRow
  ids : (rows.map (·.id)).Nodup
  /-- Some write has failed. -/
  failed : Bool

namespace MessageStore

def empty : MessageStore := ⟨[], List.nodup_nil, false⟩

variable (m : MessageStore)

def fail : MessageStore × Bool := ({ m with failed := true }, false)

def append (row : MessageRow) (hnew : row.id ∉ m.rows.map (·.id)) : MessageStore where
  rows := m.rows ++ [row]
  ids := by
    rw [List.map_append, List.nodup_append]
    refine ⟨m.ids, List.nodup_singleton _, fun id hid id' hid' heq ↦ hnew ?_⟩
    rw [List.map_singleton, List.mem_singleton] at hid'
    exact (heq.trans hid') ▸ hid
  failed := m.failed

def change (f : MessageRow → MessageRow) (hid : ∀ row, (f row).id = row.id) : MessageStore where
  rows := m.rows.map f
  ids := by
    have hids : (fun row : MessageRow ↦ row.id) ∘ f = fun row ↦ row.id := funext hid
    rw [List.map_map, hids]
    exact m.ids
  failed := m.failed

def insertMessage (row : MessageRow) : MessageStore × Bool :=
  if hid : row.id ∈ m.rows.map (·.id) then m.fail else (m.append row hid, true)

def updateMessage (conversationId id : String) (updates : MessageRowUpdate) :
    MessageStore × Bool :=
  if m.rows.any fun row ↦ row.conversationId = conversationId ∧ row.id = id then
    (m.change (fun row ↦
      if row.conversationId = conversationId ∧ row.id = id then row.update updates else row)
      fun row ↦ by split <;> rfl, true)
  else m.fail

def upsertMessage (row : MessageRow) : MessageStore × Bool :=
  if hid : row.id ∈ m.rows.map (·.id) then
    if m.rows.any fun old ↦ old.id = row.id ∧ old.conversationId = row.conversationId then
      (m.change (fun old ↦ if old.id = row.id then row.merge old else old)
        fun old ↦ by split <;> rfl, true)
    else m.fail
  else (m.append row hid, true)

def getMessageByMsgId (conversationId msgId : String) (type : MessageType) : Option MessageRow :=
  m.rows.find? fun row ↦
    row.conversationId = conversationId ∧ row.msgId = some msgId ∧ row.type = type

end MessageStore

/-!
## Persistence of a stream

The adapter stores what a relay receives: text while it is streamed, thinking
and tool calls as they come, and the final text at the end.  Each write is
subject to the lifecycle of the conversation.
-/

open Zaowutai.Conversation

/-- Unicode white space. -/
def isWhitespace (c : Char) : Bool :=
  let n := c.toNat
  (0x9 ≤ n && n ≤ 0xD) || (0x2000 ≤ n && n ≤ 0x200A) ||
    n ∈ [0x20, 0x85, 0xA0, 0x1680, 0x2028, 0x2029, 0x202F, 0x205F, 0x3000]

def trim (text : String) : String :=
  let dropLeading := List.dropWhile isWhitespace
  String.ofList (dropLeading (dropLeading text.toList).reverse).reverse

structure TextSegmentState where
  id : String
  buffer : String
  recordCreated : Bool
  flushCounter : ℕ
  deriving DecidableEq, Repr

structure ThinkingSegmentState where
  id : String
  buffer : String
  deriving DecidableEq, Repr

structure FinalTextOverride where
  msgId : String
  text : String
  hidden : Bool
  deriving DecidableEq, Repr

structure StreamPersistenceAdapter where
  conversationId : String
  msgId : String
  repo : MessageStore
  backendTurnId : Option String
  /-- The ids that are minted, in their order, and how many have been so far. -/
  mint : ℕ → String
  minted : ℕ

namespace StreamPersistenceAdapter

variable (a : StreamPersistenceAdapter) (lifecycle : RuntimeLifecycleState)

def mintMsgId : String × StreamPersistenceAdapter :=
  (a.mint a.minted, { a with minted := a.minted + 1 })

def setBackendTurnId (backendTurnId : String) : StreamPersistenceAdapter :=
  { a with backendTurnId := some backendTurnId }

def row (id : String) (type : MessageType) (content : Content) (status : MessageStatus) :
    MessageRow :=
  ⟨id, a.conversationId, some id, type, content, some status, false, a.backendTurnId, fun _ ↦ rfl⟩

def insert (row : MessageRow) : StreamPersistenceAdapter × Bool :=
  let (repo, stored) := a.repo.insertMessage row
  ({ a with repo }, stored)

def update (id : String) (updates : MessageRowUpdate) : StreamPersistenceAdapter × Bool :=
  let (repo, stored) := a.repo.updateMessage a.conversationId id updates
  ({ a with repo }, stored)

def upsert (row : MessageRow) : StreamPersistenceAdapter :=
  { a with repo := (a.repo.upsertMessage row).1 }

/-- What has been streamed so far is stored, and the turn goes on. -/
def flushTextSegment (segment : TextSegmentState) :
    StreamPersistenceAdapter × TextSegmentState :=
  if !lifecycle.allows .assistantTextFlush || segment.buffer = "" then (a, segment)
  else
    let content : Content := ⟨some segment.buffer, []⟩
    if segment.recordCreated then
      ((a.update segment.id ⟨some content, some .work, none⟩).1, segment)
    else
      ((a.insert (a.row segment.id .text content .work)).1, { segment with recordCreated := true })

def finalizeTextSegment (segment : TextSegmentState) (status : MessageStatus) :
    StreamPersistenceAdapter × Option String :=
  if !lifecycle.allows .assistantTextFinalize || segment.buffer = "" then (a, none)
  else
    let content : Content := ⟨some segment.buffer, []⟩
    let (a, stored) :=
      if segment.recordCreated then a.update segment.id ⟨some content, some status, some false⟩
      else a.insert (a.row segment.id .text content status)
    (a, if stored then some segment.id else none)

def updateAll (ids : List String) (updates : MessageRowUpdate) : StreamPersistenceAdapter :=
  ids.foldl (fun a id ↦ (a.update id updates).1) a

/-- A rewritten text replaces the first segment and hides the others. -/
def persistFinalText (textSegments : List String) (status : MessageStatus) (finalText : String)
    (hidden rewriteSegments : Bool) : StreamPersistenceAdapter × List FinalTextOverride :=
  if !lifecycle.allows .terminalFinalize then (a, [])
  else
    match textSegments with
    | primary :: others =>
        if rewriteSegments then
          let (a, _) := a.update primary ⟨some ⟨some finalText, []⟩, some status, some hidden⟩
          (a.updateAll others ⟨none, some status, some true⟩,
            ⟨primary, finalText, hidden⟩ :: others.map (⟨·, "", true⟩))
        else (a.updateAll textSegments ⟨none, some status, some false⟩, [])
    | [] =>
        if hidden then (a, [])
        else ((a.insert (a.row a.msgId .text ⟨some finalText, []⟩ status)).1, [])

def persistNote (content : Content) (status : MessageStatus) : StreamPersistenceAdapter :=
  if !lifecycle.allows .terminalFinalize then a
  else
    let (id, a) := a.mintMsgId
    (a.insert ⟨id, a.conversationId, none, .tips, content, some status, false, a.backendTurnId,
      fun h ↦ (by cases h)⟩).1

def persistErrorTip (data : ErrorEventData) : StreamPersistenceAdapter :=
  a.persistNote lifecycle ⟨some data.message, [.error data]⟩ .error

def persistTip (data : TipsEventData) : StreamPersistenceAdapter :=
  let status : MessageStatus := match data.tipType with
    | .error => .error
    | .success | .warning | .info => .finish
  a.persistNote lifecycle ⟨some data.content, [.tips data]⟩ status

def persistThinkingSegment (segment : ThinkingSegmentState) : StreamPersistenceAdapter :=
  if segment.buffer = "" || !lifecycle.allows .assistantThinkingFinalize then a
  else (a.insert (a.row segment.id .thinking ⟨some segment.buffer, []⟩ .finish)).1

def persistToolCall (data : ToolCallEventData) : StreamPersistenceAdapter :=
  if !lifecycle.allows .toolCallPersist || trim data.callId = "" then a
  else
    let status : MessageStatus := match data.status with
      | .running => .work
      | .completed | .canceled => .finish
      | .error => .error
    a.upsert (a.row data.callId .toolCall ⟨none, [.toolCall data]⟩ status)

def persistPlan (data : PlanEventData) (turnId : String) : StreamPersistenceAdapter :=
  if !lifecycle.allows .toolCallPersist then a
  else
    a.upsert { a.row ("plan:" ++ a.msgId) .plan ⟨none, [.plan data turnId]⟩ .finish with
      msgId := some a.msgId
      group := fun h ↦ (by cases h) }

def persistAcpToolCall (data : AcpToolCallEventData) : StreamPersistenceAdapter :=
  if !lifecycle.allows .acpToolCallPersist then a
  else
    let status : MessageStatus := match data.status with
      | some .pending | some .inProgress | none => .work
      | some .completed => .finish
      | some .failed => .error
    a.upsert (a.row data.toolCallId .acpToolCall ⟨none, [.acpToolCall data]⟩ status)

def settleToolCallIfPresent (data : ToolCallEventData) : StreamPersistenceAdapter × Bool :=
  match a.repo.getMessageByMsgId a.conversationId data.callId .toolCall with
  | none => (a, false)
  | some _ => (a.persistToolCall lifecycle data, true)

def persistToolGroup (entries : List ToolGroupEntry) : StreamPersistenceAdapter :=
  if !lifecycle.allows .toolGroupPersist then a
  else
    let status : MessageStatus :=
      if entries.all fun entry ↦ entry.status.isTerminal then .finish else .work
    let content : Content := ⟨none, [.toolGroup entries]⟩
    let (groupId, a) := match entries.head? with
      | some entry => (entry.callId, a)
      | none => a.mintMsgId
    match a.repo.getMessageByMsgId a.conversationId groupId .toolGroup with
    | some _ => (a.update groupId ⟨some content, some status, none⟩).1
    | none => (a.insert (a.row groupId .toolGroup content status)).1

end StreamPersistenceAdapter

end Zaowutai.Stream
