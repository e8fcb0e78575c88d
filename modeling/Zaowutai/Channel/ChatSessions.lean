import Zaowutai.Lib.Run

/-!
# The sessions of channel chats

Every incoming message of a channel is handled in a task of its own.  A text
message looks up or inserts the session of its user and chat, creates a
conversation when the session has none, sends, and binds the conversation to
the session; `session.new` deletes the session and inserts another.  Between
two awaited calls any other task may take steps, and a call that fails ends
its task.
-/

namespace Zaowutai.Channel

open Zaowutai.Lib

structure Chat where
  userId : ℕ
  chatId : ℕ
  deriving DecidableEq, Repr

structure AssistantSessionRow where
  id : ℕ
  chat : Chat
  conversationId : Option ℕ
  deriving DecidableEq, Repr

/-- A text message of an authorized user, or its `session.new` button. -/
inductive ChatRequest
  | text
  | sessionNew
  deriving DecidableEq, Repr

/-- The call a task waits for; `dispatched` is the conversation its session had when it was
looked up. -/
inductive ChatTask
  /-- `get_internal_user_id` and `get_agent_config`. -/
  | authorize (request : ChatRequest)
  | deleteSessionByUserChat
  /-- The lookup of `get_or_create_session`. -/
  | findSession (request : ChatRequest)
  | touchActivity (request : ChatRequest) (session : ℕ) (dispatched : Option ℕ)
  | insertSession (request : ChatRequest)
  /-- `get_session` after the insert. -/
  | readInserted (request : ChatRequest) (session : ℕ)
  | getSessionById (session : ℕ) (dispatched : Option ℕ)
  | createConversation (session : ℕ) (dispatched : Option ℕ)
  | warmup (session : ℕ) (dispatched : Option ℕ) (conversation : ℕ)
  | sendMessage (session : ℕ) (dispatched : Option ℕ) (conversation : ℕ)
  | bindConversation (session conversation : ℕ)
  deriving DecidableEq, Repr

structure ChatOp where
  chat : Chat
  /-- The resets of the chat before the message came in. -/
  interval : ℕ
  next : ChatTask
  deriving DecidableEq, Repr

/-- A message that `send_message` accepted. -/
structure SentMessage where
  chat : Chat
  interval : ℕ
  session : ℕ
  conversation : ℕ
  deriving DecidableEq, Repr

structure ChatStore where
  sessions : List AssistantSessionRow
  /-- The next id of `generate_id`. -/
  nextId : ℕ
  tasks : List ChatOp
  /-- The chats whose session a reset deleted, in order. -/
  resets : List Chat
  /-- Every conversation a session was bound to, in order. -/
  bindings : List (ℕ × ℕ)
  sent : List SentMessage
  deriving DecidableEq, Repr

inductive ChatStep
  | begin (request : ChatRequest) (chat : Chat)
  | advance (task : ℕ) (ok : Bool)
  deriving DecidableEq, Repr

def ChatRequest.afterAuthorize : ChatRequest → ChatTask
  | .text => .findSession .text
  | .sessionNew => .deleteSessionByUserChat

/-- A text message is dispatched with its session; `session.new` answers the user. -/
def ChatRequest.afterSession (session : ℕ) (conversation : Option ℕ) :
    ChatRequest → Option ChatTask
  | .text => some (.getSessionById session conversation)
  | .sessionNew => none

/-- `send_to_agent` takes the conversation of the session row, or creates one. -/
def sendToAgent (row : AssistantSessionRow) (dispatched : Option ℕ) : ChatTask :=
  match row.conversationId with
  | some conversation => .warmup row.id dispatched conversation
  | none => .createConversation row.id dispatched

def AssistantSessionRow.bound (session conversation : ℕ) (row : AssistantSessionRow) :
    AssistantSessionRow :=
  if row.id = session then { row with conversationId := some conversation } else row

namespace ChatStore

variable (s : ChatStore)

def opened (rows : List AssistantSessionRow) (nextId : ℕ) : ChatStore where
  sessions := rows
  nextId := nextId
  tasks := []
  resets := []
  bindings := rows.filterMap fun row ↦ row.conversationId.map fun c ↦ (row.id, c)
  sent := []

def resetsOf (chat : Chat) : ℕ := s.resets.count chat

def findSession (chat : Chat) : Option AssistantSessionRow :=
  s.sessions.find? fun row ↦ row.chat = chat

def getSession (session : ℕ) : Option AssistantSessionRow :=
  s.sessions.find? fun row ↦ row.id = session

/-- `update_session_conversation`: a session that was deleted is not bound. -/
def updateSessionConversation (session conversation : ℕ) : ChatStore :=
  if (s.getSession session).isSome then
    { s with
      sessions := s.sessions.map (·.bound session conversation)
      bindings := s.bindings ++ [(session, conversation)] }
  else s

def write (op : ChatOp) : ChatStore :=
  match op.next with
  | .deleteSessionByUserChat =>
      { s with
        sessions := s.sessions.filter fun row ↦ row.chat ≠ op.chat
        resets := s.resets ++ [op.chat] }
  | .insertSession _ =>
      { s with
        sessions := s.sessions ++ [⟨s.nextId, op.chat, none⟩]
        nextId := s.nextId + 1 }
  | .createConversation _ _ => { s with nextId := s.nextId + 1 }
  | .sendMessage session _ conversation =>
      { s with sent := s.sent ++ [⟨op.chat, op.interval, session, conversation⟩] }
  | .bindConversation session conversation => s.updateSessionConversation session conversation
  | _ => s

def after (op : ChatOp) : Option ChatTask :=
  match op.next with
  | .authorize request => some request.afterAuthorize
  | .deleteSessionByUserChat => some (.findSession .sessionNew)
  | .findSession request =>
      match s.findSession op.chat with
      | some row => some (.touchActivity request row.id row.conversationId)
      | none => some (.insertSession request)
  | .touchActivity request session dispatched => request.afterSession session dispatched
  | .insertSession request => some (.readInserted request s.nextId)
  | .readInserted request session =>
      (s.getSession session).bind fun row ↦ request.afterSession row.id row.conversationId
  | .getSessionById session dispatched =>
      (s.getSession session).map fun row ↦ sendToAgent row dispatched
  | .createConversation session dispatched => some (.warmup session dispatched s.nextId)
  | .warmup session dispatched conversation =>
      some (.sendMessage session dispatched conversation)
  -- the conversation is bound when the session had none at the dispatch
  | .sendMessage session dispatched conversation =>
      if dispatched.isNone then some (.bindConversation session conversation) else none
  | .bindConversation _ _ => none

/-- A task whose call succeeds goes to the end of the list, or leaves it when it is through. -/
def advance (op : ChatOp) (rest : List ChatOp) : ChatStore :=
  { s.write op with
    tasks := rest ++ ((s.after op).map fun next ↦ { op with next := next }).toList }

def step (s : ChatStore) : ChatStep → ChatStore
  | .begin request chat =>
      { s with tasks := s.tasks ++ [⟨chat, s.resetsOf chat, .authorize request⟩] }
  | .advance index ok =>
      match s.tasks[index]? with
      | none => s
      | some op =>
          let rest := s.tasks.eraseIdx index
          if ok then s.advance op rest else { s with tasks := rest }

end ChatStore

end Zaowutai.Channel
