import Zaowutai.Lib.Table

/-!
# The rows behind the sidebar

Conversations, teams and projects of all users, and the thin listings of one
user's rows within the active or the archived slice.  A conversation names its
team in its `extra` column.
-/

namespace Zaowutai.Sidebar

open Zaowutai.Lib

inductive ArchiveScope where
  | active
  | archived
  deriving DecidableEq, Repr

/-- What the sidebar reads of the `extra` column. -/
structure ConversationExtra where
  workspace : Option String
  team_id : Option String
  teamId : Option String
  isHealthCheck : Bool
  deriving DecidableEq, Repr

/-- The columns besides the key; the row of a conversation may fail to convert to a response. -/
structure ConversationRow where
  userId : String
  projectId : Option String
  extra : ConversationExtra
  convertible : Bool
  archivedAt : Option ℤ
  updatedAt : ℤ
  createdAt : ℤ
  deriving DecidableEq, Repr

structure TeamRow where
  userId : String
  name : String
  projectId : Option String
  workspace : Option String
  agents : List String
  archivedAt : Option ℤ
  updatedAt : ℤ
  createdAt : ℤ
  deriving DecidableEq, Repr

inductive ProjectKind where
  | standard
  | temp
  deriving DecidableEq, Repr

structure ProjectRow where
  userId : String
  kind : ProjectKind
  workspaceCanonical : Option String
  createdAt : ℤ
  deriving DecidableEq, Repr

structure SidebarStore where
  conversations : Table String ConversationRow
  teams : Table String TeamRow
  projects : Table String ProjectRow

structure SidebarConversationThin where
  id : String
  projectId : Option String
  workspace : Option String
  teamId : Option String
  updatedAt : ℤ
  createdAt : ℤ
  deriving DecidableEq, Repr

structure SidebarTeamThin where
  id : String
  name : String
  projectId : Option String
  workspace : Option String
  updatedAt : ℤ
  createdAt : ℤ
  deriving DecidableEq, Repr

structure SidebarProjectMeta where
  projectId : String
  kind : ProjectKind
  workspaceCanonical : Option String
  createdAt : ℤ
  deriving DecidableEq, Repr

def isWhitespace (c : Char) : Bool :=
  c.toNat ∈ [0x9, 0xA, 0xB, 0xC, 0xD, 0x20, 0x85, 0xA0, 0x1680, 0x2028, 0x2029, 0x202F, 0x205F,
    0x3000] || (0x2000 ≤ c.toNat && c.toNat ≤ 0x200A)

def nonBlank (value : Option String) : Option String :=
  value.filter fun s ↦ !s.toList.all isWhitespace

def ConversationExtra.teamMarker (extra : ConversationExtra) : Option String :=
  (extra.team_id.filter (· ≠ "")).or (extra.teamId.filter (· ≠ ""))

def ConversationRow.team (row : ConversationRow) : Option String := nonBlank row.extra.teamMarker

/-- `archived_predicate` -/
def ArchiveScope.holds : ArchiveScope → Option ℤ → Bool
  | .active, archivedAt => archivedAt.isNone
  | .archived, archivedAt => archivedAt.isSome

namespace SidebarStore

variable (s : SidebarStore)

def listConversationsThin (userId : String) (scope : ArchiveScope) :
    List SidebarConversationThin :=
  s.conversations.entries.filterMap fun ⟨id, row⟩ ↦
    if row.userId = userId ∧ scope.holds row.archivedAt ∧ !row.extra.isHealthCheck then
      some ⟨id, nonBlank row.projectId, nonBlank row.extra.workspace, row.team, row.updatedAt,
        row.createdAt⟩
    else none

def listTeamsThin (userId : String) (scope : ArchiveScope) : List SidebarTeamThin :=
  s.teams.entries.filterMap fun ⟨id, row⟩ ↦
    if row.userId = userId ∧ scope.holds row.archivedAt then
      some ⟨id, row.name, nonBlank row.projectId, nonBlank row.workspace, row.updatedAt,
        row.createdAt⟩
    else none

def listUserProjects (userId : String) : List SidebarProjectMeta :=
  s.projects.entries.filterMap fun ⟨id, row⟩ ↦
    if row.userId = userId then some ⟨id, row.kind, row.workspaceCanonical, row.createdAt⟩
    else none

/-- `none` when the user has no such conversation. -/
def setConversationArchived (userId id : String) (archivedAt : Option ℤ) : Option SidebarStore :=
  match s.conversations.lookup id with
  | none => none
  | some row =>
      if row.userId = userId then
        some { s with
          conversations := s.conversations.modify id fun row ↦ { row with archivedAt } }
      else none

def setTeamArchived (userId id : String) (archivedAt : Option ℤ) : Option SidebarStore :=
  match s.teams.lookup id with
  | none => none
  | some row =>
      if row.userId = userId then
        some { s with
          teams := s.teams.modify id fun row ↦ { row with archivedAt }
          conversations := s.conversations.mapValues fun _ row ↦
            if row.userId = userId ∧ row.extra.teamMarker = some id then
              { row with archivedAt }
            else row }
      else none

/-- `ConversationService::delete`, which refuses a conversation of another user. -/
def deleteConversation (userId id : String) : SidebarStore :=
  match s.conversations.lookup id with
  | none => s
  | some row =>
      if row.userId = userId then { s with conversations := s.conversations.erase id } else s

/-- `TeamSessionService::remove_team`: the conversations of the agents go first. -/
def removeTeam (userId id : String) : SidebarStore :=
  match s.teams.lookup id with
  | none => s
  | some row =>
      if row.userId = userId then
        let emptied := row.agents.foldl (fun s agent ↦ s.deleteConversation userId agent) s
        { emptied with teams := emptied.teams.erase id }
      else s

end SidebarStore

end Zaowutai.Sidebar
