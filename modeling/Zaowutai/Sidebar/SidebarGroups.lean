import Mathlib.Data.Prod.Lex
import Mathlib.Data.String.Basic
import Zaowutai.Order.UserOrder
import Zaowutai.Sidebar.SidebarStore

/-!
# The groups of the sidebar

A unit is a team or a conversation outside of the listed teams.  A unit belongs
to its project, or to the standard project or the directory of its workspace, or
to the chats.
-/

namespace Zaowutai.Sidebar

open Zaowutai.Lib

inductive GroupKey where
  | project (projectId : String)
  | dir (canonical : String)
  | chats
  deriving DecidableEq, Repr

structure TeamAgg where
  teamId : String
  name : String
  updatedAt : ℤ
  memberIds : List String
  deriving DecidableEq, Repr

section Aggregate

variable (convs : List SidebarConversationThin) (teams : List SidebarTeamThin)

def isMember (conv : SidebarConversationThin) : Bool :=
  conv.teamId.any fun teamId ↦ teams.any fun team ↦ team.id = teamId

def independents : List SidebarConversationThin := convs.filter fun conv ↦ !isMember teams conv

def memberBefore (a b : SidebarConversationThin) : Prop :=
  a.createdAt < b.createdAt ∨ a.createdAt = b.createdAt ∧ a.id ≤ b.id

instance : DecidableRel memberBefore := fun a b ↦
  inferInstanceAs (Decidable (a.createdAt < b.createdAt ∨ a.createdAt = b.createdAt ∧ a.id ≤ b.id))

def aggregateTeam (team : SidebarTeamThin) : TeamAgg :=
  let members := (convs.filter fun conv ↦ conv.teamId = some team.id).insertionSort memberBefore
  { teamId := team.id
    name := team.name
    updatedAt := match members.map (·.updatedAt) with
      | [] => team.updatedAt
      | first :: rest => rest.foldl max first
    memberIds := members.map (·.id) }

/-- `aggregate_teams`: the listed teams with their members, and the conversations besides. -/
def aggregateTeams : List TeamAgg × List SidebarConversationThin :=
  (teams.map (aggregateTeam convs), independents convs teams)

end Aggregate

/-- `classify_unit`.  `canonical` gives the canonical URI of a workspace, unless the workspace is a
temporary one of a session or has no URI. -/
def classifyUnit (canonical : String → Option String) (projects : List SidebarProjectMeta)
    (projectId workspace : Option String) : GroupKey :=
  match projectId.bind fun id ↦ projects.find? fun p ↦ p.projectId = id with
  | some p => if p.kind = .standard then .project p.projectId else .chats
  | none =>
      match (workspace.filter (· ≠ "")).bind canonical with
      | none => .chats
      | some canon =>
          -- Of several standard projects of one workspace the last one counts.
          match (projects.filter fun p ↦
              p.kind = .standard ∧ p.workspaceCanonical = some canon).getLast? with
          | some p => .project p.projectId
          | none => .dir canon

/-- The units of a standard project; `none` when the user has no such project. -/
def collectProjectUnits (canonical : String → Option String) (s : SidebarStore)
    (userId projectId : String) (scope : ArchiveScope) :
    Option (List SidebarTeamThin × List SidebarConversationThin) :=
  let convs := s.listConversationsThin userId scope
  let teams := s.listTeamsThin userId scope
  let projects := s.listUserProjects userId
  match projects.find? fun p ↦ p.projectId = projectId with
  | none => none
  | some p =>
      if p.kind = .standard then
        let classify := classifyUnit canonical projects
        some
          (teams.filter fun team ↦ classify team.projectId team.workspace = .project projectId,
            (independents convs teams).filter fun conv ↦
              classify conv.projectId conv.workspace = .project projectId)
      else none

/-!
## The groups of one user

Every unit is put into the group of its key, unless it is pinned, and a group
lists its units the latest first.  The groups of projects and directories come
in the order of their activity, up to a limit, and the chats last.  The names
and paths that a group displays are left out.
-/

open Zaowutai.Order

def maxProjectGroups : ℕ := 100

inductive ScopeToken where
  | pinned
  | project (id : String)
  /-- The canonical path, not its key. -/
  | dir (canonical : String)
  | chats
  deriving DecidableEq, Repr

def GroupKey.token : GroupKey → ScopeToken
  | .project projectId => .project projectId
  | .dir canonical => .dir canonical
  | .chats => .chats

inductive GroupItemRef where
  | conv (id : String) (updatedAt : ℤ)
  | team (teamId : String) (updatedAt : ℤ)
  deriving DecidableEq, Repr

namespace GroupItemRef

def updatedAt : GroupItemRef → ℤ
  | conv _ updatedAt | team _ updatedAt => updatedAt

def typeOrd : GroupItemRef → ℕ
  | conv _ _ => 0
  | team _ _ => 1

def itemId : GroupItemRef → String
  | conv id _ => id
  | team teamId _ => teamId

def itemType : GroupItemRef → OrderItemType
  | conv _ _ => .conversation
  | team _ _ => .team

def ref (item : GroupItemRef) : OrderItemRef := ⟨item.itemType, item.itemId⟩

/-- What `cmp_item` ascends by: `updated_at DESC`, then type and id. -/
def position (item : GroupItemRef) : ℤᵒᵈ ×ₗ ℕ ×ₗ String :=
  toLex (OrderDual.toDual item.updatedAt, toLex (item.typeOrd, item.itemId))

end GroupItemRef

structure SidebarUnit where
  key : GroupKey
  pinned : Bool
  item : GroupItemRef
  deriving DecidableEq, Repr

structure GroupAccum where
  items : List GroupItemRef
  /-- Over all units, the pinned ones too. -/
  latestActivity : Option ℤ
  createdAt : ℤ
  token : ScopeToken
  deriving DecidableEq, Repr

abbrev GroupBuilder := Table GroupKey GroupAccum

def GroupAccum.new (key : GroupKey) (projects : List SidebarProjectMeta) : GroupAccum where
  items := []
  latestActivity := none
  createdAt := match key with
    | .project projectId =>
        ((projects.find? fun p ↦ p.projectId = projectId).map (·.createdAt)).getD 0
    | _ => 0
  token := key.token

namespace GroupBuilder

variable (projects : List SidebarProjectMeta)

def push (map : GroupBuilder) (u : SidebarUnit) : GroupBuilder :=
  let accum := (map.lookup u.key).getD (GroupAccum.new u.key projects)
  let accum := { accum with
    latestActivity := some (match accum.latestActivity with
      | none => u.item.updatedAt
      | some latest => max latest u.item.updatedAt) }
  map.insert u.key (if u.pinned then accum else { accum with items := accum.items ++ [u.item] })

def ensureStandardSpine (map : GroupBuilder) (project : SidebarProjectMeta) : GroupBuilder :=
  let key := GroupKey.project project.projectId
  if key ∈ map then map else map.insert key ⟨[], none, project.createdAt, key.token⟩

end GroupBuilder

/-- A group of units that are not pinned, in their order. -/
structure NaturalGroup where
  token : ScopeToken
  items : List GroupItemRef
  deriving DecidableEq, Repr

def GroupAccum.intoGroup (accum : GroupAccum) : NaturalGroup where
  token := accum.token
  items := accum.items.insertionSort fun a b ↦ a.position ≤ b.position

structure Snapshot where
  projectArea : List NaturalGroup
  chats : NaturalGroup
  hasMoreGroups : Bool
  teams : List TeamAgg

section Finish

-- `tokenStr` is the token of a group as text.
variable (tokenStr : ScopeToken → String)

/-- What `cmp_group` ascends by: the active groups, the latest first, before the empty ones, the
newest first; then the token, descending. -/
def GroupAccum.position (accum : GroupAccum) : ℕ ×ₗ ℤᵒᵈ ×ₗ Stringᵒᵈ :=
  let (rank, at_) := match accum.latestActivity with
    | some latest => (0, latest)
    | none => (1, accum.createdAt)
  toLex (rank, toLex (OrderDual.toDual at_, OrderDual.toDual (tokenStr accum.token)))

/-- The project area, in order and not yet truncated.  The map may list its entries in any order,
that of a `rank` of the keys. -/
def GroupBuilder.area (map : GroupBuilder) (rank : GroupKey → ℕ) : List GroupAccum :=
  (((map.reorder rank).entries.filter (·.1 ≠ .chats)).map Sigma.snd).insertionSort
    fun a b ↦ a.position tokenStr ≤ b.position tokenStr

def GroupBuilder.finish (map : GroupBuilder) (rank : GroupKey → ℕ) (teams : List TeamAgg) :
    Snapshot where
  projectArea := ((map.area tokenStr rank).take maxProjectGroups).map GroupAccum.intoGroup
  chats := ((map.lookup .chats).getD ⟨[], none, 0, .chats⟩).intoGroup
  hasMoreGroups := maxProjectGroups < (map.area tokenStr rank).length
  teams := teams

end Finish

end Zaowutai.Sidebar
