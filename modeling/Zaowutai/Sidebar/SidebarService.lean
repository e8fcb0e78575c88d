import Zaowutai.Sidebar.SidebarGroups

/-!
# Scope tokens and cursors

The text of a scope token, and the cursor of a group as a client keeps it: a
payload that names its group, as JSON in base64.
-/

namespace Zaowutai.Sidebar

open Zaowutai.Lib Zaowutai.Order

inductive SidebarError where
  | badRequest (message : String)
  | scopeGone
  deriving DecidableEq, Repr

inductive Cursor where
  | pinned (orderKey : ℤ) (itemType itemId : String)
  | activity (updatedAt : ℤ) (itemType itemId : String)
  deriving DecidableEq, Repr

structure CursorPayload where
  v : ℕ
  scope : String
  orderKey : Option ℤ
  updatedAt : Option ℤ
  itemType : String
  itemId : String
  deriving DecidableEq, Repr

/-- The encodings of `base64` and `serde_json`, each read back as it was written: the key of a
canonical path, and a cursor `R` that holds a text `J`. -/
structure WireFormat (R J : Type) where
  dirKey : String → String
  dirCanonical : String → Option String
  dirCanonical_dirKey : ∀ canonical, dirCanonical (dirKey canonical) = some canonical
  base64 : J → R
  unbase64 : R → Option J
  unbase64_base64 : ∀ json, unbase64 (base64 json) = some json
  toJson : CursorPayload → J
  fromJson : J → Option CursorPayload
  fromJson_toJson : ∀ payload, fromJson (toJson payload) = some payload

/-- `strip_prefix` -/
def stripFront (front text : String) : Option String :=
  if front.toList <+: text.toList then some (String.ofList (text.toList.drop front.toList.length))
  else none

/-- `CURSOR_VERSION` -/
def cursorVersion : ℕ := 1

def maxLimit : ℤ := 100

def validateLimit (limit : ℤ) : Except SidebarError Unit :=
  if 1 ≤ limit ∧ limit ≤ maxLimit then .ok ()
  else .error (.badRequest s!"limit out of range [1,{maxLimit}]: {limit}")

def typeOrdOf (itemType : String) : ℕ :=
  if itemType = OrderItemType.conversation.asStr then 0
  else if itemType = OrderItemType.team.asStr then 1
  else 255

def parseItemType (itemType : String) : Option OrderItemType :=
  if itemType = OrderItemType.conversation.asStr then some .conversation
  else if itemType = OrderItemType.team.asStr then some .team
  else none

variable {R J : Type} (wire : WireFormat R J)

namespace ScopeToken

def toToken : ScopeToken → String
  | pinned => "pinned"
  | chats => "chats"
  | project id => "project:" ++ id
  | dir canonical => "dir:" ++ wire.dirKey canonical

def parse (token : String) : Option ScopeToken :=
  if token = "pinned" then some pinned
  else if token = "chats" then some chats
  else
    match stripFront "project:" token with
    | some id => if id = "" then none else some (project id)
    | none => (stripFront "dir:" token).bind fun key ↦ (wire.dirCanonical key).map dir

end ScopeToken

namespace Cursor

def encode (scope : ScopeToken) : Cursor → R
  | pinned orderKey itemType itemId =>
      wire.base64 (wire.toJson
        ⟨cursorVersion, scope.toToken wire, some orderKey, none, itemType, itemId⟩)
  | activity updatedAt itemType itemId =>
      wire.base64 (wire.toJson
        ⟨cursorVersion, scope.toToken wire, none, some updatedAt, itemType, itemId⟩)

def decode (raw : R) (scope : ScopeToken) : Except SidebarError Cursor :=
  match wire.unbase64 raw with
  | none => .error (.badRequest "cursor is not valid base64")
  | some json =>
      match wire.fromJson json with
      | none => .error (.badRequest "cursor JSON is malformed")
      | some payload =>
          if payload.v ≠ cursorVersion then .error (.badRequest "cursor version mismatch")
          else if payload.scope ≠ scope.toToken wire then
            .error (.badRequest "cursor belongs to a different scope")
          else
            match scope with
            | .pinned =>
                match payload.orderKey with
                | none => .error (.badRequest "pinned cursor missing order_key")
                | some orderKey => .ok (pinned orderKey payload.itemType payload.itemId)
            | _ =>
                match payload.updatedAt with
                | none => .error (.badRequest "activity cursor missing updated_at")
                | some updatedAt => .ok (activity updatedAt payload.itemType payload.itemId)

def toPinnedCursor : Cursor → Except SidebarError PinnedCursor
  | pinned orderKey itemType itemId =>
      match parseItemType itemType with
      | none => .error (.badRequest ("unknown cursor item type: " ++ itemType))
      | some itemType => .ok ⟨orderKey, itemType, itemId⟩
  | activity _ _ _ => .error (.badRequest "expected a pinned cursor")

end Cursor

section RoundTrips

theorem stripFront_append (front text : String) : stripFront front (front ++ text) = some text := by
  rw [stripFront, String.toList_append, if_pos (List.prefix_append _ _), List.drop_left]
  simp

/-- Texts that differ in one place differ. -/
theorem ne_of_getElem?_ne {a b : String} (n : ℕ) (h : a.toList[n]? ≠ b.toList[n]?) : a ≠ b :=
  fun heq ↦ h (by rw [heq])

theorem parse_toToken {token : ScopeToken} (h : token ≠ .project "") :
    ScopeToken.parse wire (token.toToken wire) = some token := by
  cases token with
  | pinned => rfl
  | chats => rfl
  | project id =>
      have hid : id ≠ "" := fun hempty ↦ h (by rw [hempty])
      have hpinned : "project:" ++ id ≠ "pinned" := ne_of_getElem?_ne 1 (by simp)
      have hchats : "project:" ++ id ≠ "chats" := ne_of_getElem?_ne 0 (by simp)
      simp only [ScopeToken.toToken, ScopeToken.parse, if_neg hpinned, if_neg hchats,
        stripFront_append, if_neg hid]
  | dir canonical =>
      have hpinned : "dir:" ++ wire.dirKey canonical ≠ "pinned" := ne_of_getElem?_ne 0 (by simp)
      have hchats : "dir:" ++ wire.dirKey canonical ≠ "chats" := ne_of_getElem?_ne 0 (by simp)
      have hproject : stripFront "project:" ("dir:" ++ wire.dirKey canonical) = none :=
        if_neg (by simp)
      simp only [ScopeToken.toToken, ScopeToken.parse, if_neg hpinned, if_neg hchats, hproject,
        stripFront_append, Option.bind_some, wire.dirCanonical_dirKey, Option.map_some]

theorem parse_project_empty :
    ScopeToken.parse wire ((ScopeToken.project "").toToken wire) = none := by
  have hpinned : "project:" ++ "" ≠ "pinned" := ne_of_getElem?_ne 1 (by simp)
  have hchats : "project:" ++ "" ≠ "chats" := ne_of_getElem?_ne 0 (by simp)
  simp only [ScopeToken.toToken, ScopeToken.parse, if_neg hpinned, if_neg hchats, stripFront_append,
    if_true]

theorem toToken_injective {token token' : ScopeToken}
    (h : token.toToken wire = token'.toToken wire) : token = token' := by
  have hparse := congrArg (ScopeToken.parse wire) h
  by_cases hempty : token = .project ""
  · by_cases hempty' : token' = .project ""
    · rw [hempty, hempty']
    · rw [hempty, parse_project_empty, parse_toToken wire hempty'] at hparse
      cases hparse
  · rw [parse_toToken wire hempty] at hparse
    by_cases hempty' : token' = .project ""
    · rw [hempty', parse_project_empty] at hparse
      cases hparse
    · rw [parse_toToken wire hempty'] at hparse
      exact Option.some.inj hparse

theorem parseItemType_asStr (itemType : OrderItemType) :
    parseItemType itemType.asStr = some itemType := by
  cases itemType <;> rfl

theorem decode_encode_activity {token : ScopeToken} (h : token ≠ .pinned) (updatedAt : ℤ)
    (itemType itemId : String) :
    Cursor.decode wire ((Cursor.activity updatedAt itemType itemId).encode wire token) token =
      .ok (.activity updatedAt itemType itemId) := by
  simp only [Cursor.decode, Cursor.encode, wire.unbase64_base64, wire.fromJson_toJson]
  cases token with
  | pinned => exact absurd rfl h
  | _ => simp

theorem decode_encode_pinned (orderKey : ℤ) (itemType itemId : String) :
    Cursor.decode wire ((Cursor.pinned orderKey itemType itemId).encode wire .pinned) .pinned =
      .ok (.pinned orderKey itemType itemId) := by
  simp [Cursor.decode, Cursor.encode, wire.unbase64_base64, wire.fromJson_toJson]

end RoundTrips

end Zaowutai.Sidebar

/-!
## The first screen and the windows behind it

`firstScreen` returns a window of every group, and `items` the window of a group
behind a cursor.  Both classify all units anew.  A client follows the cursors of
a group until there is none.
-/

namespace Zaowutai.Sidebar

open Zaowutai.Lib Zaowutai.Order

def defaultLimit : ℤ := 5
def defaultItemsLimit : ℤ := 10

inductive SidebarItem where
  | conversation (id : String) (pinned : Bool)
  | team (agg : TeamAgg) (pinned : Bool)
  deriving DecidableEq, Repr

def SidebarItem.ref : SidebarItem → OrderItemRef
  | conversation id _ => ⟨.conversation, id⟩
  | team agg _ => ⟨.team, agg.teamId⟩

structure SidebarGroup (R : Type) where
  scope : ScopeToken
  items : List SidebarItem
  hasMore : Bool
  nextCursor : Option R
  deriving DecidableEq, Repr

structure SidebarResponse (R : Type) where
  groups : List (SidebarGroup R)
  hasMoreGroups : Bool
  deriving DecidableEq, Repr

@[ext] structure SidebarItemsResponse (R : Type) where
  items : List SidebarItem
  hasMore : Bool
  nextCursor : Option R
  deriving DecidableEq, Repr

structure SidebarService (R J : Type) where
  sidebar : SidebarStore
  userOrder : UserOrder
  canonical : String → Option String
  wire : WireFormat R J
  projectIds : "" ∉ sidebar.projects

def GroupItemRef.isAfter (item : GroupItemRef) : Option Cursor → Bool
  | some (.activity updatedAt itemType itemId) =>
      item.updatedAt < updatedAt || item.updatedAt = updatedAt &&
        (typeOrdOf itemType < item.typeOrd || item.typeOrd = typeOrdOf itemType &&
          itemId < item.itemId)
  | _ => true

def GroupItemRef.activityCursor (item : GroupItemRef) : Cursor :=
  .activity item.updatedAt item.itemType.asStr item.itemId

def GroupItemRef.convId? : GroupItemRef → Option String
  | .conv id _ => some id
  | .team _ _ => none

def assembleItems (window : List GroupItemRef) (hydrated : List String) (teams : List TeamAgg)
    (pinned : Bool) : List SidebarItem :=
  window.filterMap fun
    | .conv id _ => if id ∈ hydrated then some (.conversation id pinned) else none
    | .team teamId _ => (teams.find? fun agg ↦ agg.teamId = teamId).map (.team · pinned)

def windowOf (limit : Option ℤ) (win : List (String × ℤ)) (token : String) : ℤ :=
  ((win.reverse.find? fun entry ↦ entry.1 = token).map Prod.snd).getD (limit.getD defaultLimit)

def Snapshot.group (snapshot : Snapshot) (token : ScopeToken) : Option NaturalGroup :=
  match token with
  | .chats => some snapshot.chats
  | _ => snapshot.projectArea.find? fun group ↦ group.token = token

namespace SidebarService

variable {R J : Type} (v : SidebarService R J) (userId : String) (scope : ArchiveScope)

/-- The pins that count; archiving unpins. -/
def pinnedSet : List OrderItemRef :=
  match scope with
  | .active => v.userOrder.pinnedRefs userId .pinned
  | .archived => []

def aggregates : List TeamAgg × List SidebarConversationThin :=
  aggregateTeams (v.sidebar.listConversationsThin userId scope)
    (v.sidebar.listTeamsThin userId scope)

def teamUnits : List SidebarUnit :=
  (v.sidebar.listTeamsThin userId scope).filterMap fun team ↦
    ((v.aggregates userId scope).1.find? fun agg ↦ agg.teamId = team.id).map fun agg ↦
      { key := classifyUnit v.canonical (v.sidebar.listUserProjects userId) team.projectId
          team.workspace
        pinned := ⟨.team, team.id⟩ ∈ v.pinnedSet userId scope
        item := .team team.id agg.updatedAt }

def convUnits : List SidebarUnit :=
  (v.aggregates userId scope).2.map fun conv ↦
    { key := classifyUnit v.canonical (v.sidebar.listUserProjects userId) conv.projectId
        conv.workspace
      pinned := ⟨.conversation, conv.id⟩ ∈ v.pinnedSet userId scope
      item := .conv conv.id conv.updatedAt }

def units : List SidebarUnit := v.teamUnits userId scope ++ v.convUnits userId scope

def builder : GroupBuilder :=
  let projects := v.sidebar.listUserProjects userId
  let spine : List SidebarProjectMeta := match scope with
    | .active => projects.filter fun p ↦ p.kind = .standard
    | .archived => []
  spine.foldl GroupBuilder.ensureStandardSpine
    ((v.units userId scope).foldl (GroupBuilder.push projects) ∅)

def classify (rank : GroupKey → ℕ) : Snapshot :=
  (v.builder userId scope).finish (ScopeToken.toToken v.wire) rank (v.aggregates userId scope).1

/-- The conversations among the ids whose row is in the slice and converts to a response. -/
def hydrate (ids : List String) : List String :=
  v.sidebar.conversations.entries.filterMap fun entry ↦
    if entry.2.userId = userId ∧ scope.holds entry.2.archivedAt ∧ !entry.2.extra.isHealthCheck ∧
        entry.1 ∈ ids ∧ entry.2.convertible then
      some entry.1
    else none

def pagePinned (after : Option PinnedCursor) (limit : ℤ) (teams : List TeamAgg) :
    SidebarItemsResponse R :=
  let rows := v.userOrder.listPinned userId .pinned after (limit + 1).toNat
  let hasMore := limit < rows.length
  let window := rows.take limit.toNat
  -- a member of a listed team has no row of its own
  let memberIds := teams.flatMap TeamAgg.memberIds
  let convIds := (window.filter fun row ↦
    row.item.itemType = .conversation ∧ row.item.itemId ∉ memberIds).map (·.item.itemId)
  let hydrated := v.hydrate userId .active convIds
  { items := window.filterMap fun row ↦
      match row.item.itemType with
      | .conversation =>
          if row.item.itemId ∈ hydrated then some (.conversation row.item.itemId true) else none
      | .team => (teams.find? fun agg ↦ agg.teamId = row.item.itemId).map (.team · true)
    hasMore := hasMore
    nextCursor :=
      if hasMore then
        window.getLast?.map fun row ↦
          (Cursor.pinned row.orderKey row.item.itemType.asStr row.item.itemId).encode v.wire .pinned
      else none }

def pageNatural (group : NaturalGroup) (teams : List TeamAgg) (cursor : Option Cursor)
    (limit : ℤ) : SidebarItemsResponse R :=
  let after := group.items.filter (·.isAfter cursor)
  let window := after.take limit.toNat
  let hasMore := limit.toNat < after.length
  let hydrated := v.hydrate userId scope (window.filterMap GroupItemRef.convId?)
  { items := assembleItems window hydrated teams false
    hasMore := hasMore
    nextCursor :=
      if hasMore then window.getLast?.map fun item ↦ item.activityCursor.encode v.wire group.token
      else none }

def firstWindow (limit : Option ℤ) (win : List (String × ℤ)) (teams : List TeamAgg)
    (hydrated : List String) (group : NaturalGroup) : SidebarGroup R :=
  let limit := (windowOf limit win (group.token.toToken v.wire)).toNat
  let hasMore := limit < group.items.length
  let window := group.items.take limit
  { scope := group.token
    items := assembleItems window hydrated teams false
    hasMore := hasMore
    nextCursor :=
      if hasMore then window.getLast?.map fun item ↦ item.activityCursor.encode v.wire group.token
      else none }

def firstScreen (limit : Option ℤ) (win : List (String × ℤ)) (rank : GroupKey → ℕ) :
    SidebarResponse R :=
  let snapshot := v.classify userId scope rank
  let pinned : List (SidebarGroup R) :=
    match scope with
    | .archived => []
    | .active =>
        let page := v.pagePinned userId none (windowOf limit win "pinned") snapshot.teams
        if page.items = [] then [] else [⟨.pinned, page.items, page.hasMore, page.nextCursor⟩]
  let natural := snapshot.projectArea ++ [snapshot.chats]
  let convIds := natural.flatMap fun group ↦
    (group.items.take (windowOf limit win (group.token.toToken v.wire)).toNat).filterMap
      GroupItemRef.convId?
  let hydrated := v.hydrate userId scope convIds
  { groups := pinned ++ natural.map (v.firstWindow limit win snapshot.teams hydrated)
    hasMoreGroups := snapshot.hasMoreGroups }

def items (token : String) (cursor : Option R) (limit : Option ℤ) (rank : GroupKey → ℕ) :
    Except SidebarError (SidebarItemsResponse R) := do
  match ScopeToken.parse v.wire token with
  | none => .error (.badRequest ("unknown scope: " ++ token))
  | some token =>
      let limit := limit.getD defaultItemsLimit
      validateLimit limit
      match token with
      | .pinned =>
          match scope with
          | .archived => .error .scopeGone
          | .active =>
              let after ← match cursor with
                | none => pure none
                | some raw => do
                    let cursor ← Cursor.decode v.wire raw .pinned
                    some <$> cursor.toPinnedCursor
              return v.pagePinned userId after limit (v.aggregates userId .active).1
      | _ =>
          let snapshot := v.classify userId scope rank
          match snapshot.group token with
          | none => .error .scopeGone
          | some group =>
              let cursor ← match cursor with
                | none => pure none
                | some raw => some <$> Cursor.decode v.wire raw token
              return v.pageNatural userId scope group snapshot.teams cursor limit

def follow (token : String) : List (ℤ × (GroupKey → ℕ)) → Option R →
    Except SidebarError (List SidebarItem × Option R)
  | _, none => .ok ([], none)
  | [], some cursor => .ok ([], some cursor)
  | request :: requests, some cursor => do
      let page ← v.items userId scope token (some cursor) (some request.1) request.2
      let rest ← follow token requests page.nextCursor
      return (page.items ++ rest.1, rest.2)

end SidebarService

end Zaowutai.Sidebar
