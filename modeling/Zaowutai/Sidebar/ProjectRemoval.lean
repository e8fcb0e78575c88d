import Zaowutai.Sidebar.CompleteSidebar
import Zaowutai.Sidebar.TeamUnity

/-!
# Removing a project

A project is removed with its active units, its archived units are deleted, or
its active ones are archived.  What these reach is compared with the groups that
the sidebar shows.
-/

namespace Zaowutai.Sidebar

open Zaowutai.Lib Zaowutai.Order

structure RemoveProjectItem where
  name : String
  pinned : Bool
  kind : OrderItemType
  deriving DecidableEq, Repr

structure RemoveProjectResult where
  teamsDeleted : ℕ
  conversationsDeleted : ℕ
  items : List RemoveProjectItem
  deriving DecidableEq, Repr

namespace SidebarStore

/-- `remove_team` fails for a team that the user does not have. -/
def ownsTeam (s : SidebarStore) (userId id : String) : Bool :=
  (s.teams.lookup id).any (·.userId = userId)

def ownsConversation (s : SidebarStore) (userId id : String) : Bool :=
  (s.conversations.lookup id).any (·.userId = userId)

/-- What is removed one after the other, with the number of removals that did not fail. -/
def removeCounting (owns : SidebarStore → String → Bool)
    (remove : SidebarStore → String → SidebarStore) (ids : List String) (s : SidebarStore) :
    SidebarStore × ℕ :=
  ids.foldl (fun acc id ↦ (remove acc.1 id, if owns acc.1 id then acc.2 + 1 else acc.2)) (s, 0)

/-- `ProjectService::delete_project`: the record of the user's project. -/
def deleteProjectRecord (s : SidebarStore) (userId projectId : String) : SidebarStore :=
  if (s.projects.lookup projectId).any (·.userId = userId) then
    { s with projects := s.projects.erase projectId }
  else s

end SidebarStore

namespace SidebarService

variable {R J : Type} (v : SidebarService R J) (userId projectId : String)

/-- The preview counts the units that would be removed and names them.  A conversation is named by
its response, of which `responseName` is the name. -/
def removeProject (responseName : String → String) (dryRun : Bool) :
    Except SidebarError (SidebarStore × RemoveProjectResult) :=
  match collectProjectUnits v.canonical v.sidebar userId projectId .active with
  | none => .error .scopeGone
  | some (teams, convs) =>
      let teamIds := teams.map (·.id)
      let convIds := convs.map (·.id)
      if dryRun then
        let pinned := v.userOrder.pinnedRefs userId .pinned
        let hydrated := v.hydrate userId .active convIds
        .ok (v.sidebar,
          { teamsDeleted := teamIds.length
            conversationsDeleted := convIds.length
            items := (teams.map fun team ↦ ⟨team.name, ⟨.team, team.id⟩ ∈ pinned, .team⟩) ++
              convIds.map fun id ↦ ⟨if id ∈ hydrated then responseName id else "",
                ⟨.conversation, id⟩ ∈ pinned, .conversation⟩ })
      else
        let afterTeams := SidebarStore.removeCounting (·.ownsTeam userId) (·.removeTeam userId)
          teamIds v.sidebar
        let afterConvs := SidebarStore.removeCounting (·.ownsConversation userId)
          (·.deleteConversation userId) convIds afterTeams.1
        .ok (afterConvs.1.deleteProjectRecord userId projectId,
          { teamsDeleted := afterTeams.2
            conversationsDeleted := afterConvs.2
            items := [] })

def storeWithoutProject (responseName : String → String) : SidebarStore :=
  match v.removeProject userId projectId responseName false with
  | .error _ => v.sidebar
  | .ok (s, _) => s

end SidebarService

end Zaowutai.Sidebar
