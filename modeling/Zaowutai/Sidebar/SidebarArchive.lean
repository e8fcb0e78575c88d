import Zaowutai.Lib.Run
import Zaowutai.Sidebar.SidebarGroups

/-!
# Archiving and deleting

A unit is archived, restored or deleted alone, with its project, or with the
whole archive.  Pinned rows and the processes of the agents are left out, and so
are failures of the storage.
-/

namespace Zaowutai.Sidebar

open Zaowutai.Lib

inductive SidebarAction where
  | archiveConversation (userId id : String) (now : ℤ)
  | unarchiveConversation (userId id : String)
  | archiveTeam (userId id : String) (now : ℤ)
  | unarchiveTeam (userId id : String)
  | archiveProject (userId projectId : String) (now : ℤ)
  | unarchiveProject (userId projectId : String)
  | deleteArchivedConversation (userId id : String)
  | deleteArchivedTeam (userId id : String)
  | deleteArchivedProject (userId projectId : String)
  | deleteAllArchived (userId : String)

namespace SidebarStore

def setUnitsArchived (s : SidebarStore) (userId : String) (archivedAt : Option ℤ)
    (teams : List SidebarTeamThin) (convs : List SidebarConversationThin) : SidebarStore :=
  convs.foldl (fun s conv ↦ (s.setConversationArchived userId conv.id archivedAt).getD s)
    (teams.foldl (fun s team ↦ (s.setTeamArchived userId team.id archivedAt).getD s) s)

def removeUnits (s : SidebarStore) (userId : String) (teams : List SidebarTeamThin)
    (convs : List SidebarConversationThin) : SidebarStore :=
  convs.foldl (fun s conv ↦ s.deleteConversation userId conv.id)
    (teams.foldl (fun s team ↦ s.removeTeam userId team.id) s)

variable (canonical : String → Option String) (s : SidebarStore)

def archiveProject (userId projectId : String) (now : ℤ) : SidebarStore :=
  match collectProjectUnits canonical s userId projectId .active with
  | none => s
  | some (teams, convs) => s.setUnitsArchived userId (some now) teams convs

def unarchiveProject (userId projectId : String) : SidebarStore :=
  match collectProjectUnits canonical s userId projectId .archived with
  | none => s
  | some (teams, convs) => s.setUnitsArchived userId none teams convs

def deleteArchivedConversation (userId id : String) : SidebarStore :=
  let convs := s.listConversationsThin userId .archived
  let teams := s.listTeamsThin userId .archived
  if (aggregateTeams convs teams).2.any fun conv ↦ conv.id = id then s.deleteConversation userId id
  else s

def deleteArchivedTeam (userId id : String) : SidebarStore :=
  if (s.listTeamsThin userId .archived).any fun team ↦ team.id = id then s.removeTeam userId id
  else s

def deleteArchivedProject (userId projectId : String) : SidebarStore :=
  match collectProjectUnits canonical s userId projectId .archived with
  | none => s
  | some (teams, convs) => s.removeUnits userId teams convs

def deleteAllArchived (userId : String) : SidebarStore :=
  let convs := s.listConversationsThin userId .archived
  let teams := s.listTeamsThin userId .archived
  s.removeUnits userId teams (aggregateTeams convs teams).2

def step : SidebarAction → SidebarStore
  | .archiveConversation userId id now => (s.setConversationArchived userId id (some now)).getD s
  | .unarchiveConversation userId id => (s.setConversationArchived userId id none).getD s
  | .archiveTeam userId id now => (s.setTeamArchived userId id (some now)).getD s
  | .unarchiveTeam userId id => (s.setTeamArchived userId id none).getD s
  | .archiveProject userId projectId now => s.archiveProject canonical userId projectId now
  | .unarchiveProject userId projectId => s.unarchiveProject canonical userId projectId
  | .deleteArchivedConversation userId id => s.deleteArchivedConversation userId id
  | .deleteArchivedTeam userId id => s.deleteArchivedTeam userId id
  | .deleteArchivedProject userId projectId => s.deleteArchivedProject canonical userId projectId
  | .deleteAllArchived userId => s.deleteAllArchived userId

end SidebarStore

end Zaowutai.Sidebar
