import Mathlib.Data.Prod.Lex
import Mathlib.Data.String.Basic
import Zaowutai.Lib.Ranking
import Zaowutai.Lib.Table

/-!
# Pages of the messages of a conversation

Messages are ordered by their time and then by their id.  A page is the latest
one, the one before or after a cursor, or a window around a message.
-/

namespace Zaowutai.Messages

open Zaowutai.Lib

structure ConversationRow where
  userId : String
  updatedAt : ℤ
  deriving DecidableEq, Repr

structure MessageRow (Content : Type) where
  conversationId : String
  msgId : Option String
  type : String
  content : Content
  position : Option String
  status : Option String
  hidden : Bool
  createdAt : ℤ
  backendTurnId : Option String
  deriving DecidableEq, Repr

structure MessageTables (Content : Type) where
  conversations : Table String ConversationRow
  messages : Table String (MessageRow Content)

inductive DbError
  | notFound (message : String)
  | conflict (message : String)
  deriving DecidableEq, Repr

abbrev Entry (Content : Type) := (_ : String) × MessageRow Content

structure MessagePageCursor where
  createdAt : ℤ
  id : String
  deriving DecidableEq, Repr

inductive MessagePageDirection
  | initialLatest
  | before (cursor : MessagePageCursor)
  | after (cursor : MessagePageCursor)
  | anchor (messageId : String)
  deriving DecidableEq, Repr

structure MessagePageParams where
  limit : ℕ
  direction : MessagePageDirection
  deriving DecidableEq, Repr

structure MessagePageResult (Content : Type) where
  items : List (Entry Content)
  hasMoreBefore : Bool
  hasMoreAfter : Bool

section Query

variable {Content : Type}

def place (entry : Entry Content) : ℤ ×ₗ String := toLex (entry.2.createdAt, entry.1)

def cursorOf (entry : Entry Content) : MessagePageCursor := ⟨entry.2.createdAt, entry.1⟩

/-- `(m.created_at < ? OR (m.created_at = ? AND m.id < ?))` -/
def IsBefore (cursor : MessagePageCursor) (entry : Entry Content) : Prop :=
  entry.2.createdAt < cursor.createdAt ∨
    entry.2.createdAt = cursor.createdAt ∧ entry.1 < cursor.id

def IsAfter (cursor : MessagePageCursor) (entry : Entry Content) : Prop :=
  cursor.createdAt < entry.2.createdAt ∨
    entry.2.createdAt = cursor.createdAt ∧ cursor.id < entry.1

instance (cursor : MessagePageCursor) : DecidablePred (@IsBefore Content cursor) :=
  fun _ ↦ inferInstanceAs (Decidable (_ ∨ _))

instance (cursor : MessagePageCursor) : DecidablePred (@IsAfter Content cursor) :=
  fun _ ↦ inferInstanceAs (Decidable (_ ∨ _))

/-- `ORDER BY m.created_at ASC, m.id ASC` -/
def oldestFirst (rows : List (Entry Content)) : List (Entry Content) :=
  rows.insertionSort fun a b ↦ place a ≤ place b

/-- `ORDER BY m.created_at DESC, m.id DESC` -/
def latestFirst (rows : List (Entry Content)) : List (Entry Content) :=
  rows.insertionSort fun a b ↦ place b ≤ place a

/-- The anchor with its neighbours: half of the page before it and the rest after it, and what one
side has no messages for is given to the other, the later side first. -/
def anchorWindow (limit : ℕ) (before : List (Entry Content)) (anchor : Entry Content)
    (after : List (Entry Content)) : List (Entry Content) :=
  let beforeTarget := (limit - 1) / 2
  let afterTarget := limit - (1 + beforeTarget)
  let beforeTake := min before.length beforeTarget
  let afterTake := min after.length afterTarget
  let remaining := limit - (1 + beforeTake + afterTake)
  let extraAfter := min (after.length - afterTake) remaining
  let beforeTake' := beforeTake + min (before.length - beforeTake) (remaining - extraAfter)
  before.drop (before.length - beforeTake') ++ anchor :: after.take (afterTake + extraAfter)

end Query

namespace MessageTables

variable {Content : Type} (db : MessageTables Content) (userId convId : String)

/-- The message belongs to the user's conversation and is of a kind that is shown. -/
def Visible (entry : Entry Content) : Prop :=
  (∃ conversation ∈ db.conversations.lookup entry.2.conversationId,
    conversation.userId = userId) ∧
    entry.2.conversationId = convId ∧ entry.2.type ∉ ["cron_trigger", "skill_suggest"]

instance : DecidablePred (db.Visible userId convId) :=
  fun _ ↦ inferInstanceAs (Decidable ((∃ _ ∈ _, _) ∧ _ ∧ _))

def select (p : Entry Content → Prop) [DecidablePred p] : List (Entry Content) :=
  db.messages.entries.filter fun entry ↦ db.Visible userId convId entry ∧ p entry

def ensureConversationForUser : Except DbError Unit :=
  if ∃ conversation ∈ db.conversations.lookup convId, conversation.userId = userId then .ok ()
  else .error (.notFound ("Conversation '" ++ convId ++ "' not found"))

def pageRows (limit : ℕ) : MessagePageDirection → Except DbError (List (Entry Content))
  | .initialLatest =>
      .ok (((latestFirst (db.select userId convId fun _ ↦ True)).take (limit + 1)).take
        limit).reverse
  | .before cursor =>
      .ok (((latestFirst (db.select userId convId (IsBefore cursor))).take (limit + 1)).take
        limit).reverse
  | .after cursor =>
      .ok (((oldestFirst (db.select userId convId (IsAfter cursor))).take (limit + 1)).take limit)
  | .anchor messageId =>
      match (db.select userId convId fun entry ↦ entry.1 = messageId).head? with
      | none => .error (.notFound ("Message '" ++ messageId ++ "' not found"))
      | some anchor =>
          let cursor := cursorOf anchor
          let before := (latestFirst (db.select userId convId (IsBefore cursor))).take limit
          let after := (oldestFirst (db.select userId convId (IsAfter cursor))).take limit
          .ok (anchorWindow limit before.reverse anchor after)

def pageWithFlags (items : List (Entry Content)) : MessagePageResult Content :=
  match items.head?, items.getLast? with
  | some first, some last =>
      { items := items
        hasMoreBefore := db.select userId convId (IsBefore (cursorOf first)) ≠ []
        hasMoreAfter := db.select userId convId (IsAfter (cursorOf last)) ≠ [] }
  | _, _ => ⟨items, false, false⟩

def listMessagesPage (params : MessagePageParams) : Except DbError (MessagePageResult Content) := do
  db.ensureConversationForUser userId convId
  let rows ← db.pageRows userId convId (max params.limit 1) params.direction
  return db.pageWithFlags userId convId (oldestFirst rows)

def visible : List (Entry Content) := oldestFirst (db.select userId convId fun _ ↦ True)

end MessageTables

/-- A request for the page before the first item or after the last one. -/
inductive PageStep
  | older (limit : ℕ)
  | newer (limit : ℕ)
  deriving DecidableEq, Repr

structure Reading (Content : Type) where
  pages : List (MessagePageResult Content)

namespace Reading

variable {Content : Type} (r : Reading Content)

def items : List (Entry Content) := r.pages.flatMap (·.items)

def moreBefore : Bool := (r.pages.head?.map (·.hasMoreBefore)).getD false

def moreAfter : Bool := (r.pages.getLast?.map (·.hasMoreAfter)).getD false

def step (db : MessageTables Content) (userId convId : String) (r : Reading Content) :
    PageStep → Reading Content
  | .older limit =>
      match r.moreBefore, r.items.head? with
      | true, some first =>
          match db.listMessagesPage userId convId ⟨limit, .before (cursorOf first)⟩ with
          | .ok page => ⟨page :: r.pages⟩
          | .error _ => r
      | _, _ => r
  | .newer limit =>
      match r.moreAfter, r.items.getLast? with
      | true, some last =>
          match db.listMessagesPage userId convId ⟨limit, .after (cursorOf last)⟩ with
          | .ok page => ⟨r.pages ++ [page]⟩
          | .error _ => r
      | _, _ => r

end Reading

end Zaowutai.Messages
