import Zaowutai.Sidebar.ProjectRemoval

/-!
# What is deleted is what is shown

The units of a project are those that the sidebar puts into its group.  A team
takes along the conversations of its agents, so that a project reaches no more
than its units as long as these are members which show in the team.
-/

namespace Zaowutai.Sidebar

open Zaowutai.Lib Zaowutai.Order

namespace SidebarStore

def Lacks (s : SidebarStore) (ref : OrderItemRef) : Prop :=
  match ref.itemType with
  | .conversation => s.conversations.lookup ref.itemId = none
  | .team => s.teams.lookup ref.itemId = none

def Archived (s : SidebarStore) (ref : OrderItemRef) : Prop :=
  match ref.itemType with
  | .conversation => ∃ row ∈ s.conversations.lookup ref.itemId, row.archivedAt.isSome
  | .team => ∃ row ∈ s.teams.lookup ref.itemId, row.archivedAt.isSome

end SidebarStore

def ArchiveScope.other : ArchiveScope → ArchiveScope
  | .active => .archived
  | .archived => .active

theorem ArchiveScope.other_ne (scope : ArchiveScope) : scope.other ≠ scope := by
  cases scope <;> nofun

theorem ArchiveScope.eq_or_eq_other (scope slice : ArchiveScope) :
    slice = scope ∨ slice = scope.other := by
  cases scope <;> cases slice <;> simp [other]

namespace SidebarService

variable {R J : Type} (v : SidebarService R J) (userId projectId : String) (scope : ArchiveScope)

section Spec

structure ReachesGroup (reached : OrderItemRef → Prop) : Prop where
  units : ∀ u ∈ v.units userId scope, reached u.item.ref ↔ u.key = .project projectId
  members : ∀ team ∈ v.sidebar.listTeamsThin userId scope,
    ∀ conv ∈ v.sidebar.listConversationsThin userId scope, conv.teamId = some team.id →
      reached ⟨.conversation, conv.id⟩ →
        classifyUnit v.canonical (v.sidebar.listUserProjects userId) team.projectId
          team.workspace = .project projectId

structure Spares (reached : OrderItemRef → Prop) : Prop where
  teams : ∀ team ∈ v.sidebar.listTeamsThin userId scope, ¬reached ⟨.team, team.id⟩
  conversations : ∀ conv ∈ v.sidebar.listConversationsThin userId scope,
    ¬reached ⟨.conversation, conv.id⟩

def countsOf (responseName : String → String) (dryRun : Bool) : Except SidebarError (ℕ × ℕ) :=
  (v.removeProject userId projectId responseName dryRun).map fun removed ↦
    (removed.2.teamsDeleted, removed.2.conversationsDeleted)

structure DeletesWhatIsShown (responseName : String → String) (now : ℤ) : Prop where
  removed : v.ReachesGroup userId projectId .active
    (v.storeWithoutProject userId projectId responseName).Lacks
  keptArchived : v.Spares userId .archived
    (v.storeWithoutProject userId projectId responseName).Lacks
  archived : v.ReachesGroup userId projectId .active
    (v.sidebar.archiveProject v.canonical userId projectId now).Archived
  deleted : v.ReachesGroup userId projectId .archived
    (v.sidebar.deleteArchivedProject v.canonical userId projectId).Lacks
  keptActive : v.Spares userId .active
    (v.sidebar.deleteArchivedProject v.canonical userId projectId).Lacks
  counted : v.countsOf userId projectId responseName true =
    v.countsOf userId projectId responseName false

end Spec

section Condition

def projectTeams : List SidebarTeamThin :=
  (v.sidebar.listTeamsThin userId scope).filter fun team ↦
    classifyUnit v.canonical (v.sidebar.listUserProjects userId) team.projectId team.workspace =
      .project projectId

def projectConvs : List SidebarConversationThin :=
  (v.aggregates userId scope).2.filter fun conv ↦
    classifyUnit v.canonical (v.sidebar.listUserProjects userId) conv.projectId conv.workspace =
      .project projectId

def projectAgents : List String :=
  (v.projectTeams userId projectId scope).flatMap fun team ↦ v.sidebar.agentsOf userId team.id

def Folded (id : String) : Prop :=
  ∃ team ∈ v.projectTeams userId projectId scope, v.MemberOf userId scope team.id id

/-- The conversation shows on its own in the project's group. -/
def Filed (id : String) : Prop := ∃ conv ∈ v.projectConvs userId projectId scope, conv.id = id

/-- What the teams of the project take along shows in them, or else in the project's group too where
nothing is counted. -/
structure Confined : Prop where
  agents : ∀ id ∈ v.projectAgents userId projectId .active, ∀ slice,
    ∀ conv ∈ v.sidebar.listConversationsThin userId slice, conv.id = id →
      v.Folded userId projectId .active id
  archivedAgents : ∀ id ∈ v.projectAgents userId projectId .archived, ∀ slice,
    ∀ conv ∈ v.sidebar.listConversationsThin userId slice, conv.id = id →
      v.Folded userId projectId .archived id ∨ v.Filed userId projectId .archived id
  markers : ∀ team ∈ v.projectTeams userId projectId .active,
    ∀ conv ∈ v.sidebar.listConversationsThin userId .active,
      (v.sidebar.conversations.lookup conv.id).bind (·.extra.teamMarker) = some team.id →
        v.Folded userId projectId .active conv.id ∨ v.Filed userId projectId .active conv.id

end Condition

variable {v userId projectId scope}

section Listed

theorem forall_units {P : OrderItemRef → GroupKey → Prop} :
    (∀ u ∈ v.units userId scope, P u.item.ref u.key) ↔
      (∀ team ∈ v.sidebar.listTeamsThin userId scope, P ⟨.team, team.id⟩
        (classifyUnit v.canonical (v.sidebar.listUserProjects userId) team.projectId
          team.workspace)) ∧
      ∀ conv ∈ (v.aggregates userId scope).2, P ⟨.conversation, conv.id⟩
        (classifyUnit v.canonical (v.sidebar.listUserProjects userId) conv.projectId
          conv.workspace) := by
  rw [units, List.forall_mem_append]
  refine and_congr ⟨fun h team hteam ↦ ?_, fun h u hu ↦ ?_⟩ List.forall_mem_map
  · obtain ⟨agg, hagg, -⟩ := find_aggregate hteam
    exact h _ (List.mem_filterMap.mpr ⟨team, hteam, by rw [hagg]; rfl⟩)
  · obtain ⟨team, hteam, hu⟩ := List.mem_filterMap.mp hu
    obtain ⟨agg, -, rfl⟩ := Option.map_eq_some_iff.mp hu
    exact h team hteam

theorem conv_eq {conv other : SidebarConversationThin}
    (hconv : conv ∈ v.sidebar.listConversationsThin userId scope)
    (hother : other ∈ v.sidebar.listConversationsThin userId scope) (hid : other.id = conv.id) :
    other = conv :=
  List.inj_on_of_nodup_map listConversationsThin_ids_nodup hother hconv hid

theorem team_eq {team other : SidebarTeamThin} (hteam : team ∈ v.sidebar.listTeamsThin userId scope)
    (hother : other ∈ v.sidebar.listTeamsThin userId scope) (hid : other.id = team.id) :
    other = team :=
  List.inj_on_of_nodup_map (listTeamsThin_ids_nodup v userId scope) hother hteam hid

theorem mem_independents_iff {conv : SidebarConversationThin}
    (hconv : conv ∈ v.sidebar.listConversationsThin userId scope) :
    conv ∈ (v.aggregates userId scope).2 ↔
      ¬∃ team ∈ v.sidebar.listTeamsThin userId scope, conv.teamId = some team.id := by
  constructor
  · rintro h ⟨team, hteam, hmember⟩
    exact not_member_of_independent h ⟨team, hteam, conv, hconv, rfl, hmember⟩
  · intro h
    have hfree : isMember (v.sidebar.listTeamsThin userId scope) conv = false := by
      apply Bool.eq_false_of_not_eq_true
      intro hmember
      obtain ⟨teamId, hteamId, hany⟩ := (Option.any_eq_true _ _).mp hmember
      obtain ⟨team, hteam, hid⟩ := List.any_eq_true.mp hany
      exact h ⟨team, hteam, by rw [hteamId, of_decide_eq_true hid]⟩
    exact List.mem_filter.mpr ⟨hconv, by rw [hfree]; rfl⟩

theorem not_filed_of_folded {id : String} (h : v.Folded userId projectId scope id) :
    ¬v.Filed userId projectId scope id := by
  rintro ⟨conv, hconv, rfl⟩
  obtain ⟨team, hteam, hmember⟩ := h
  exact not_member_of_independent (List.mem_of_mem_filter hconv)
    ⟨team, List.mem_of_mem_filter hteam, hmember⟩

theorem holds_slice_eq {slice slice' : ArchiveScope} {archivedAt : Option ℤ}
    (h : slice.holds archivedAt = true) (h' : slice'.holds archivedAt = true) :
    slice = slice' := by
  cases slice <;> cases slice' <;> simp_all [ArchiveScope.holds]

theorem slice_eq {slice slice' : ArchiveScope} {conv other : SidebarConversationThin}
    (hconv : conv ∈ v.sidebar.listConversationsThin userId slice)
    (hother : other ∈ v.sidebar.listConversationsThin userId slice') (hid : other.id = conv.id) :
    slice = slice' := by
  obtain ⟨row, hrow, -, hholds, -⟩ := SidebarStore.mem_listConversationsThin hconv
  obtain ⟨row', hrow', -, hholds', -⟩ := SidebarStore.mem_listConversationsThin hother
  rw [hid, hrow, Option.some_inj] at hrow'
  subst hrow'
  exact holds_slice_eq hholds hholds'

theorem mem_projectTeams {team : SidebarTeamThin} :
    team ∈ v.projectTeams userId projectId scope ↔
      team ∈ v.sidebar.listTeamsThin userId scope ∧
        classifyUnit v.canonical (v.sidebar.listUserProjects userId) team.projectId
          team.workspace = .project projectId := by
  rw [projectTeams, List.mem_filter, decide_eq_true_iff]

theorem filed_iff {conv : SidebarConversationThin} (hconv : conv ∈ (v.aggregates userId scope).2) :
    v.Filed userId projectId scope conv.id ↔
      classifyUnit v.canonical (v.sidebar.listUserProjects userId) conv.projectId
        conv.workspace = .project projectId := by
  constructor
  · rintro ⟨other, hother, hid⟩
    obtain ⟨hother, hkey⟩ := List.mem_filter.mp hother
    obtain rfl := conv_eq (List.mem_of_mem_filter hconv) (List.mem_of_mem_filter hother) hid
    exact of_decide_eq_true hkey
  · intro hkey
    exact ⟨conv, List.mem_filter.mpr ⟨hconv, decide_eq_true hkey⟩, rfl⟩

theorem folded_iff {conv : SidebarConversationThin} {team : SidebarTeamThin}
    (hconv : conv ∈ v.sidebar.listConversationsThin userId scope)
    (hteam : team ∈ v.sidebar.listTeamsThin userId scope) (hmember : conv.teamId = some team.id) :
    v.Folded userId projectId scope conv.id ↔
      classifyUnit v.canonical (v.sidebar.listUserProjects userId) team.projectId
        team.workspace = .project projectId := by
  constructor
  · rintro ⟨other, hother, conv', hconv', hid, hmember'⟩
    obtain ⟨hother, hkey⟩ := mem_projectTeams.mp hother
    obtain rfl := conv_eq hconv hconv' hid
    rw [hmember, Option.some_inj] at hmember'
    obtain rfl := team_eq hteam hother hmember'.symm
    exact hkey
  · intro hkey
    exact ⟨team, mem_projectTeams.mpr ⟨hteam, hkey⟩, conv, hconv, rfl, hmember⟩

theorem listed_of_folded_or_filed {id : String}
    (h : v.Folded userId projectId scope id ∨ v.Filed userId projectId scope id) :
    ∃ conv ∈ v.sidebar.listConversationsThin userId scope, conv.id = id := by
  rcases h with ⟨team, -, conv, hconv, hid, -⟩ | ⟨conv, hconv, hid⟩
  · exact ⟨conv, hconv, hid⟩
  · exact ⟨conv, List.mem_of_mem_filter (List.mem_of_mem_filter hconv), hid⟩

theorem team_slice_eq {slice slice' : ArchiveScope} {team other : SidebarTeamThin}
    (hteam : team ∈ v.sidebar.listTeamsThin userId slice)
    (hother : other ∈ v.sidebar.listTeamsThin userId slice') (hid : other.id = team.id) :
    slice = slice' := by
  obtain ⟨row, hrow, -, hholds⟩ := SidebarStore.mem_listTeamsThin_iff.mp ⟨team, hteam, rfl⟩
  obtain ⟨row', hrow', -, hholds'⟩ := SidebarStore.mem_listTeamsThin_iff.mp ⟨other, hother, rfl⟩
  rw [hid, hrow, Option.some_inj] at hrow'
  subst hrow'
  exact holds_slice_eq hholds hholds'

theorem mem_projectTeams_ids {team : SidebarTeamThin}
    (hteam : team ∈ v.sidebar.listTeamsThin userId scope) :
    team.id ∈ (v.projectTeams userId projectId scope).map (·.id) ↔
      classifyUnit v.canonical (v.sidebar.listUserProjects userId) team.projectId
        team.workspace = .project projectId := by
  constructor
  · intro h
    obtain ⟨other, hother, hid⟩ := List.mem_map.mp h
    obtain ⟨hother, hkey⟩ := mem_projectTeams.mp hother
    obtain rfl := team_eq hteam hother hid
    exact hkey
  · exact fun hkey ↦ List.mem_map_of_mem (mem_projectTeams.mpr ⟨hteam, hkey⟩)

theorem reachesGroup_iff {reached : OrderItemRef → Prop} (taken : String → Prop)
    (hteam : ∀ team ∈ v.sidebar.listTeamsThin userId scope,
      (reached ⟨.team, team.id⟩ ↔
        team.id ∈ (v.projectTeams userId projectId scope).map (·.id)))
    (hconv : ∀ conv ∈ v.sidebar.listConversationsThin userId scope,
      (reached ⟨.conversation, conv.id⟩ ↔
        taken conv.id ∨ v.Filed userId projectId scope conv.id)) :
    v.ReachesGroup userId projectId scope reached ↔
      ∀ conv ∈ v.sidebar.listConversationsThin userId scope, taken conv.id →
        v.Folded userId projectId scope conv.id ∨ v.Filed userId projectId scope conv.id := by
  constructor
  · intro hreach conv hlisted htaken
    have hreached := (hconv conv hlisted).mpr (Or.inl htaken)
    by_cases hunit : conv ∈ (v.aggregates userId scope).2
    · have hkey := ((forall_units (P := fun ref key ↦ reached ref ↔ key = .project projectId)).mp
        hreach.units).2 conv hunit
      exact Or.inr ((filed_iff hunit).mpr (hkey.mp hreached))
    · rw [mem_independents_iff hlisted, not_not] at hunit
      obtain ⟨team, hlistedTeam, hmember⟩ := hunit
      refine Or.inl ((folded_iff hlisted hlistedTeam hmember).mpr ?_)
      exact hreach.members team hlistedTeam conv hlisted hmember hreached
  · intro hconfined
    have hshown : ∀ conv ∈ v.sidebar.listConversationsThin userId scope,
        reached ⟨.conversation, conv.id⟩ →
          v.Folded userId projectId scope conv.id ∨ v.Filed userId projectId scope conv.id :=
      fun conv hlisted hreached ↦
        ((hconv conv hlisted).mp hreached).elim (hconfined conv hlisted) Or.inr
    constructor
    · refine (forall_units (P := fun ref key ↦ reached ref ↔ key = .project projectId)).mpr
        ⟨fun team hlisted ↦ (hteam team hlisted).trans (mem_projectTeams_ids hlisted),
          fun conv hunit ↦ ?_⟩
      have hlisted := List.mem_of_mem_filter hunit
      rw [← filed_iff hunit]
      constructor
      · intro hreached
        refine (hshown conv hlisted hreached).resolve_left ?_
        rintro ⟨team, hmember, hmemberOf⟩
        exact not_member_of_independent hunit ⟨team, List.mem_of_mem_filter hmember, hmemberOf⟩
      · exact fun hfiled ↦ (hconv conv hlisted).mpr (Or.inr hfiled)
    · intro team hlistedTeam conv hlisted hmember hreached
      refine (folded_iff hlisted hlistedTeam hmember).mp
        ((hshown conv hlisted hreached).resolve_right ?_)
      rintro ⟨other, hother, hid⟩
      have hunit := List.mem_of_mem_filter hother
      obtain rfl := conv_eq hlisted (List.mem_of_mem_filter hunit) hid
      exact (mem_independents_iff hlisted).mp hunit ⟨team, hlistedTeam, hmember⟩

end Listed

section Removal

variable {s : SidebarStore} {cids tids : List String}

theorem lacks_conversation (h : v.sidebar.Prunes s userId cids tids)
    {conv : SidebarConversationThin}
    (hconv : conv ∈ v.sidebar.listConversationsThin userId scope) :
    s.Lacks ⟨.conversation, conv.id⟩ ↔ conv.id ∈ cids := by
  obtain ⟨row, hrow, huser, -⟩ := SidebarStore.mem_listConversationsThin hconv
  rw [SidebarStore.Lacks, h.conversations, hrow]
  by_cases hid : conv.id ∈ cids
  · simp [hid, huser]
  · simp [hid]

theorem lacks_team (h : v.sidebar.Prunes s userId cids tids) {team : SidebarTeamThin}
    (hteam : team ∈ v.sidebar.listTeamsThin userId scope) :
    s.Lacks ⟨.team, team.id⟩ ↔ team.id ∈ tids := by
  obtain ⟨row, hrow, huser, -⟩ := SidebarStore.mem_listTeamsThin_iff.mp ⟨team, hteam, rfl⟩
  rw [SidebarStore.Lacks, h.teams, hrow]
  by_cases hid : team.id ∈ tids
  · simp [hid, huser]
  · simp [hid]

theorem reaches_iff_agents
    (h : v.sidebar.Prunes s userId (v.projectAgents userId projectId scope ++
      (v.projectConvs userId projectId scope).map (·.id))
      ((v.projectTeams userId projectId scope).map (·.id))) :
    (v.ReachesGroup userId projectId scope s.Lacks ∧ v.Spares userId scope.other s.Lacks) ↔
      ∀ id ∈ v.projectAgents userId projectId scope, ∀ slice,
        ∀ conv ∈ v.sidebar.listConversationsThin userId slice, conv.id = id →
          v.Folded userId projectId scope id ∨ v.Filed userId projectId scope id := by
  have hreached : ∀ slice, ∀ conv ∈ v.sidebar.listConversationsThin userId slice,
      (s.Lacks ⟨.conversation, conv.id⟩ ↔
        conv.id ∈ v.projectAgents userId projectId scope ∨
          v.Filed userId projectId scope conv.id) := by
    intro slice conv hconv
    rw [lacks_conversation h hconv, List.mem_append, List.mem_map, Filed]
  have hgroup : v.ReachesGroup userId projectId scope s.Lacks ↔
      ∀ conv ∈ v.sidebar.listConversationsThin userId scope,
        conv.id ∈ v.projectAgents userId projectId scope →
          v.Folded userId projectId scope conv.id ∨ v.Filed userId projectId scope conv.id :=
    reachesGroup_iff (· ∈ v.projectAgents userId projectId scope)
      (fun team hteam ↦ lacks_team h hteam) (hreached scope)
  have hspares : v.Spares userId scope.other s.Lacks ↔
      ∀ conv ∈ v.sidebar.listConversationsThin userId scope.other,
        conv.id ∉ v.projectAgents userId projectId scope := by
    constructor
    · intro hspare conv hconv hagent
      exact hspare.conversations conv hconv ((hreached _ conv hconv).mpr (Or.inl hagent))
    · refine fun hnone ↦ ⟨fun team hteam hlacks ↦ ?_, fun conv hconv hlacks ↦ ?_⟩
      · obtain ⟨other, hother, hid⟩ := List.mem_map.mp ((lacks_team h hteam).mp hlacks)
        exact scope.other_ne (team_slice_eq hteam (List.mem_of_mem_filter hother) hid)
      · have hfiled := ((hreached _ conv hconv).mp hlacks).resolve_left (hnone conv hconv)
        obtain ⟨other, hother, hid⟩ := listed_of_folded_or_filed (Or.inr hfiled)
        exact scope.other_ne (slice_eq hconv hother hid)
  rw [hgroup, hspares]
  constructor
  · rintro ⟨hsame, hother⟩ id hagent slice conv hconv rfl
    obtain rfl | rfl := scope.eq_or_eq_other slice
    · exact hsame conv hconv hagent
    · exact absurd hagent (hother conv hconv)
  · refine fun hconfined ↦ ⟨fun conv hconv hagent ↦ ?_, fun conv hconv hagent ↦ ?_⟩
    · exact hconfined conv.id hagent scope conv hconv rfl
    · obtain ⟨other, hother, hid⟩ :=
        listed_of_folded_or_filed (hconfined conv.id hagent scope.other conv hconv rfl)
      exact scope.other_ne (slice_eq hconv hother hid)

end Removal

section Count

variable {s : SidebarStore} {ids : List String}

theorem removeCounting_fst (owns : SidebarStore → String → Bool)
    (remove : SidebarStore → String → SidebarStore) (ids : List String) (s : SidebarStore) :
    (SidebarStore.removeCounting owns remove ids s).1 = ids.foldl remove s := by
  rw [SidebarStore.removeCounting]
  generalize (0 : ℕ) = n
  induction ids generalizing s n with
  | nil => rfl
  | cons id ids ih => exact ih (remove s id) _

theorem removeCounting_snd {owns : SidebarStore → String → Bool}
    {remove : SidebarStore → String → SidebarStore} (hnodup : ids.Nodup)
    (hframe : ∀ s, ∀ id ∈ ids, ∀ other ∈ ids, other ≠ id →
      owns (remove s id) other = owns s other) :
    (SidebarStore.removeCounting owns remove ids s).2 = (ids.filter (owns s ·)).length := by
  have hcount : ∀ (ids : List String) (s : SidebarStore) (n : ℕ), ids.Nodup →
      (∀ s, ∀ id ∈ ids, ∀ other ∈ ids, other ≠ id → owns (remove s id) other = owns s other) →
      (ids.foldl (fun acc id ↦ (remove acc.1 id, if owns acc.1 id then acc.2 + 1 else acc.2))
        (s, n)).2 = n + (ids.filter (owns s ·)).length := by
    intro ids
    induction ids with
    | nil => exact fun s n _ _ ↦ rfl
    | cons id ids ih =>
        intro s n hnodup hframe
        obtain ⟨hid, hnodup⟩ := List.nodup_cons.mp hnodup
        have hrest : ids.filter (owns (remove s id) ·) = ids.filter (owns s ·) := by
          refine List.filter_congr fun other hother ↦ ?_
          refine hframe s id List.mem_cons_self other (List.mem_cons_of_mem id hother) ?_
          rintro rfl
          exact hid hother
        rw [List.foldl_cons, ih _ _ hnodup fun s a ha b hb ↦
          hframe s a (List.mem_cons_of_mem id ha) b (List.mem_cons_of_mem id hb), hrest]
        cases howns : owns s id with
        | true =>
            rw [if_pos rfl, List.filter_cons_of_pos howns, List.length_cons, Nat.add_assoc,
              Nat.add_comm 1]
        | false => rw [if_neg Bool.false_ne_true, List.filter_cons_of_neg (by simp [howns])]
  rw [SidebarStore.removeCounting, hcount ids s 0 hnodup hframe, Nat.zero_add]

theorem ownsConversation_deleteConversation {id other : String} (hne : other ≠ id) :
    (s.deleteConversation userId id).ownsConversation userId other =
      s.ownsConversation userId other := by
  rw [SidebarStore.ownsConversation, SidebarStore.prunes_deleteConversation.conversations,
    if_neg (by simpa using hne), ← SidebarStore.ownsConversation]

theorem ownsTeam_removeTeam {id other : String} (hne : other ≠ id) :
    (s.removeTeam userId id).ownsTeam userId other = s.ownsTeam userId other := by
  rw [SidebarStore.ownsTeam, SidebarStore.prunes_removeTeam.teams, if_neg (by simpa using hne),
    ← SidebarStore.ownsTeam]

end Count

section Collected

theorem listUserProjects_ids_nodup (v : SidebarService R J) (userId : String) :
    ((v.sidebar.listUserProjects userId).map SidebarProjectMeta.projectId).Nodup := by
  refine List.Nodup.sublist (map_filterMap_sublist ?_ _) v.sidebar.projects.nodupKeys
  rintro ⟨id, row⟩ thin h
  simp only at h
  split at h
  · rw [← Option.some.inj h]
  · cases h

theorem standard_of_key {projectId' workspace : Option String}
    (h : classifyUnit v.canonical (v.sidebar.listUserProjects userId) projectId' workspace =
      .project projectId) :
    ∃ p, (v.sidebar.listUserProjects userId).find? (fun p ↦ p.projectId = projectId) = some p ∧
      p.kind = .standard := by
  have hfind : ∀ p ∈ v.sidebar.listUserProjects userId, p.projectId = projectId →
      (v.sidebar.listUserProjects userId).find? (fun p ↦ p.projectId = projectId) = some p := by
    intro p hp hid
    cases hfound : (v.sidebar.listUserProjects userId).find? fun p ↦ p.projectId = projectId with
    | none => exact absurd (List.find?_eq_none.mp hfound p hp) (by simp [hid])
    | some other =>
        have hother : other.projectId = projectId := by
          simpa using List.find?_some hfound
        exact congrArg some (List.inj_on_of_nodup_map (listUserProjects_ids_nodup v userId)
          (List.mem_of_find?_eq_some hfound) hp (hother.trans hid.symm))
  unfold classifyUnit at h
  split at h
  · next p hbind =>
      obtain ⟨wanted, -, hp⟩ := Option.bind_eq_some_iff.mp hbind
      split at h
      · next hkind =>
          exact ⟨p, hfind p (List.mem_of_find?_eq_some hp) (GroupKey.project.inj h), hkind⟩
      · cases h
  · split at h
    · cases h
    · split at h
      · next p hlast =>
          obtain ⟨hp, hkind⟩ := List.mem_filter.mp (List.mem_of_getLast? hlast)
          exact ⟨p, hfind p hp (GroupKey.project.inj h), (of_decide_eq_true hkind).1⟩
      · cases h

theorem collect_cases (v : SidebarService R J) (userId projectId : String) :
    (∀ scope, collectProjectUnits v.canonical v.sidebar userId projectId scope =
      some (v.projectTeams userId projectId scope, v.projectConvs userId projectId scope)) ∨
    ∀ scope, collectProjectUnits v.canonical v.sidebar userId projectId scope = none ∧
      v.projectTeams userId projectId scope = [] ∧ v.projectConvs userId projectId scope = [] := by
  by_cases hstandard : ∃ p, (v.sidebar.listUserProjects userId).find?
      (fun p ↦ p.projectId = projectId) = some p ∧ p.kind = .standard
  · obtain ⟨p, hfind, hkind⟩ := hstandard
    refine Or.inl fun scope ↦ ?_
    rw [collectProjectUnits]
    simp only [hfind, if_pos hkind]
    rfl
  · refine Or.inr fun scope ↦ ⟨?_, ?_, ?_⟩
    · rw [collectProjectUnits]
      simp only
      split
      · rfl
      · next p hfind => exact if_neg fun hkind ↦ hstandard ⟨p, hfind, hkind⟩
    · refine List.filter_eq_nil_iff.mpr fun team _ hkey ↦ hstandard ?_
      exact standard_of_key (of_decide_eq_true hkey)
    · refine List.filter_eq_nil_iff.mpr fun conv _ hkey ↦ hstandard ?_
      exact standard_of_key (of_decide_eq_true hkey)

/-- The rows of the units of a group are gone, and those that go with its teams. -/
def Removes (v : SidebarService R J) (userId projectId : String) (scope : ArchiveScope)
    (s : SidebarStore) : Prop :=
  v.sidebar.Prunes s userId (v.projectAgents userId projectId scope ++
    (v.projectConvs userId projectId scope).map (·.id))
    ((v.projectTeams userId projectId scope).map (·.id))

theorem removes_nothing (hteams : v.projectTeams userId projectId scope = [])
    (hconvs : v.projectConvs userId projectId scope = []) :
    v.Removes userId projectId scope v.sidebar := by
  rw [Removes, projectAgents, hteams, hconvs]
  exact SidebarStore.Prunes.refl v.sidebar userId

theorem removes_deleteArchivedProject (v : SidebarService R J) (userId projectId : String) :
    v.Removes userId projectId .archived
      (v.sidebar.deleteArchivedProject v.canonical userId projectId) := by
  rw [SidebarStore.deleteArchivedProject]
  rcases v.collect_cases userId projectId with hcollect | hnone
  · rw [hcollect]
    exact SidebarStore.prunes_removeUnits
  · obtain ⟨hcollect, hteams, hconvs⟩ := hnone .archived
    rw [hcollect]
    exact removes_nothing hteams hconvs

theorem prunes_deleteProjectRecord {s s' : SidebarStore} {cids tids : List String}
    (h : s.Prunes s' userId cids tids) :
    s.Prunes (s'.deleteProjectRecord userId projectId) userId cids tids := by
  rw [SidebarStore.deleteProjectRecord]
  split
  · exact ⟨h.conversations, h.teams⟩
  · exact h

theorem removes_removeProject (v : SidebarService R J) (userId projectId : String)
    (responseName : String → String) :
    v.Removes userId projectId .active
      (v.storeWithoutProject userId projectId responseName) := by
  rw [storeWithoutProject, removeProject]
  rcases v.collect_cases userId projectId with hcollect | hnone
  · rw [hcollect]
    refine prunes_deleteProjectRecord ?_
    rw [removeCounting_fst, removeCounting_fst, List.foldl_map, List.foldl_map]
    exact SidebarStore.prunes_removeUnits
  · obtain ⟨hcollect, hteams, hconvs⟩ := hnone .active
    rw [hcollect]
    exact removes_nothing hteams hconvs

theorem projectTeams_ids_nodup : ((v.projectTeams userId projectId scope).map (·.id)).Nodup :=
  (listTeamsThin_ids_nodup v userId scope).sublist (List.filter_sublist.map _)

theorem projectConvs_ids_nodup : ((v.projectConvs userId projectId scope).map (·.id)).Nodup :=
  listConversationsThin_ids_nodup.sublist
    ((List.filter_sublist.trans List.filter_sublist).map SidebarConversationThin.id)

theorem projectTeams_owned : ∀ team ∈ v.projectTeams userId projectId scope,
    v.sidebar.ownsTeam userId team.id = true := by
  intro team hteam
  obtain ⟨row, hrow, huser, -⟩ :=
    SidebarStore.mem_listTeamsThin_iff.mp ⟨team, List.mem_of_mem_filter hteam, rfl⟩
  rw [SidebarStore.ownsTeam, hrow, Option.any_some]
  exact decide_eq_true huser

theorem teams_counted :
    (SidebarStore.removeCounting (·.ownsTeam userId) (·.removeTeam userId)
      ((v.projectTeams userId projectId scope).map (·.id)) v.sidebar).2 =
      (v.projectTeams userId projectId scope).length := by
  rw [removeCounting_snd projectTeams_ids_nodup fun s id _ other _ hne ↦ ownsTeam_removeTeam hne,
    List.filter_eq_self.mpr (List.forall_mem_map.mpr projectTeams_owned), List.length_map]

theorem convs_counted :
    (SidebarStore.removeCounting (·.ownsConversation userId) (·.deleteConversation userId)
      ((v.projectConvs userId projectId scope).map (·.id))
      (((v.projectTeams userId projectId scope).map (·.id)).foldl (·.removeTeam userId)
        v.sidebar)).2 = (v.projectConvs userId projectId scope).length ↔
      ∀ id ∈ v.projectAgents userId projectId scope, ¬v.Filed userId projectId scope id := by
  rw [removeCounting_snd projectConvs_ids_nodup fun s id _ other _ hne ↦
    ownsConversation_deleteConversation hne]
  have hlength : ((v.projectConvs userId projectId scope).map (·.id)).length =
      (v.projectConvs userId projectId scope).length := List.length_map _
  rw [← hlength, List.length_filter_eq_length_iff, List.foldl_map]
  have howned : ∀ conv ∈ v.projectConvs userId projectId scope,
      (((v.projectTeams userId projectId scope).foldl (fun s team ↦ s.removeTeam userId team.id)
        v.sidebar).ownsConversation userId conv.id = true ↔
        conv.id ∉ v.projectAgents userId projectId scope) := by
    intro conv hconv
    obtain ⟨row, hrow, huser, -⟩ := SidebarStore.mem_listConversationsThin
      (List.mem_of_mem_filter (List.mem_of_mem_filter hconv))
    rw [SidebarStore.ownsConversation, (SidebarStore.prunes_removeTeams _ v.sidebar).conversations,
      ← projectAgents, hrow]
    by_cases hagent : conv.id ∈ v.projectAgents userId projectId scope
    · simp [hagent]
    · simp [hagent, huser]
  constructor
  · rintro hall id hid ⟨conv, hconv, rfl⟩
    exact (howned conv hconv).mp (hall conv.id (List.mem_map_of_mem hconv)) hid
  · intro hnone id hid
    obtain ⟨conv, hconv, rfl⟩ := List.mem_map.mp hid
    exact (howned conv hconv).mpr fun hagent ↦ hnone conv.id hagent ⟨conv, hconv, rfl⟩

theorem counted_iff (v : SidebarService R J) (userId projectId : String)
    (responseName : String → String) :
    v.countsOf userId projectId responseName true =
        v.countsOf userId projectId responseName false ↔
      ∀ id ∈ v.projectAgents userId projectId .active, ¬v.Filed userId projectId .active id := by
  rw [countsOf, countsOf, removeProject, removeProject]
  rcases v.collect_cases userId projectId with hcollect | hnone
  · rw [hcollect, ← convs_counted, ← removeCounting_fst]
    simp only [if_true, Bool.false_eq_true, if_false, Except.map, List.length_map, teams_counted,
      Except.ok.injEq, Prod.mk.injEq, true_and]
    exact eq_comm
  · obtain ⟨hcollect, hteams, -⟩ := hnone .active
    rw [hcollect, projectAgents, hteams]
    exact ⟨fun _ ↦ nofun, fun _ ↦ rfl⟩

end Collected

section Archive

theorem lookup_setTeamArchived {s : SidebarStore} {id : String} (archivedAt : Option ℤ)
    (hown : s.ownsTeam userId id = true) :
    (∀ tid, ((s.setTeamArchived userId id archivedAt).getD s).teams.lookup tid =
      (s.teams.lookup tid).map fun row ↦
        if row.userId = userId ∧ tid = id then { row with archivedAt } else row) ∧
    ∀ cid, ((s.setTeamArchived userId id archivedAt).getD s).conversations.lookup cid =
      (s.conversations.lookup cid).map fun row ↦
        if row.userId = userId ∧ row.extra.teamMarker = some id then { row with archivedAt }
        else row := by
  rcases s.setTeamArchived_cases userId id archivedAt with ⟨hnone, -⟩ | hset
  · exact absurd (hown.symm.trans hnone) Bool.true_eq_false.mp
  · exact hset

theorem lookup_setTeamsArchived (archivedAt : Option ℤ) (teams : List SidebarTeamThin)
    (s : SidebarStore)
    (hown : ∀ team ∈ teams, s.ownsTeam userId team.id = true) :
    (∀ tid, (teams.foldl (fun s team ↦ (s.setTeamArchived userId team.id archivedAt).getD s)
      s).teams.lookup tid = (s.teams.lookup tid).map fun row ↦
        if row.userId = userId ∧ tid ∈ teams.map (·.id) then { row with archivedAt } else row) ∧
    ∀ cid, (teams.foldl (fun s team ↦ (s.setTeamArchived userId team.id archivedAt).getD s)
      s).conversations.lookup cid = (s.conversations.lookup cid).map fun row ↦
        if row.userId = userId ∧ ∃ team ∈ teams, row.extra.teamMarker = some team.id then
          { row with archivedAt } else row := by
  induction teams generalizing s with
  | nil => simp
  | cons team teams ih =>
      obtain ⟨hteams, hconvs⟩ :=
        lookup_setTeamArchived archivedAt (hown team List.mem_cons_self)
      have hown' : ∀ other ∈ teams, ((s.setTeamArchived userId team.id archivedAt).getD s).ownsTeam
          userId other.id = true := by
        intro other hother
        rw [SidebarStore.ownsTeam, hteams, Option.any_map]
        refine (congrArg (fun p ↦ Option.any p _) (funext fun row ↦ ?_)).trans
          (hown other (List.mem_cons_of_mem team hother))
        split <;> rfl
      obtain ⟨hteams', hconvs'⟩ := ih _ hown'
      refine ⟨fun tid ↦ ?_, fun cid ↦ ?_⟩
      · rw [List.foldl_cons, hteams', hteams, Option.map_map]
        refine congrArg (fun f ↦ (s.teams.lookup tid).map f) (funext fun row ↦ ?_)
        simp only [Function.comp_apply, List.map_cons, List.mem_cons]
        by_cases huser : row.userId = userId <;> by_cases hfirst : tid = team.id <;>
          simp [huser, hfirst]
      · rw [List.foldl_cons, hconvs', hconvs, Option.map_map]
        refine congrArg (fun f ↦ (s.conversations.lookup cid).map f) (funext fun row ↦ ?_)
        simp only [Function.comp_apply, List.exists_mem_cons_iff]
        by_cases huser : row.userId = userId <;>
          by_cases hfirst : row.extra.teamMarker = some team.id <;> simp [huser, hfirst]

variable (userId) in
theorem lookup_setConversationsArchived (archivedAt : Option ℤ)
    (convs : List SidebarConversationThin) (s : SidebarStore) :
    (convs.foldl (fun s conv ↦ (s.setConversationArchived userId conv.id archivedAt).getD s)
      s).teams = s.teams ∧
    ∀ cid, (convs.foldl (fun s conv ↦ (s.setConversationArchived userId conv.id archivedAt).getD s)
      s).conversations.lookup cid = (s.conversations.lookup cid).map fun row ↦
        if row.userId = userId ∧ cid ∈ convs.map (·.id) then { row with archivedAt } else row := by
  induction convs generalizing s with
  | nil => simp
  | cons conv convs ih =>
      obtain ⟨hteams, hconvs⟩ := ih ((s.setConversationArchived userId conv.id archivedAt).getD s)
      refine ⟨hteams.trans SidebarStore.teams_setConversationArchived, fun cid ↦ ?_⟩
      rw [List.foldl_cons, hconvs, SidebarStore.lookup_setConversationArchived, Option.map_map]
      refine congrArg (fun f ↦ (s.conversations.lookup cid).map f) (funext fun row ↦ ?_)
      simp only [Function.comp_apply, List.map_cons, List.mem_cons]
      by_cases huser : row.userId = userId <;> by_cases hfirst : cid = conv.id <;>
        simp [huser, hfirst]

theorem archiveProject_eq (now : ℤ) :
    v.sidebar.archiveProject v.canonical userId projectId now =
      v.sidebar.setUnitsArchived userId (some now) (v.projectTeams userId projectId .active)
        (v.projectConvs userId projectId .active) := by
  rw [SidebarStore.archiveProject]
  rcases v.collect_cases userId projectId with hcollect | hnone
  · rw [hcollect]
  · obtain ⟨hcollect, hteams, hconvs⟩ := hnone .active
    rw [hcollect, hteams, hconvs]
    rfl

theorem archives_iff_markers (v : SidebarService R J) (userId projectId : String) (now : ℤ) :
    v.ReachesGroup userId projectId .active
        (v.sidebar.archiveProject v.canonical userId projectId now).Archived ↔
      ∀ conv ∈ v.sidebar.listConversationsThin userId .active,
        (∃ team ∈ v.projectTeams userId projectId .active,
          (v.sidebar.conversations.lookup conv.id).bind (·.extra.teamMarker) = some team.id) →
        v.Folded userId projectId .active conv.id ∨ v.Filed userId projectId .active conv.id := by
  rw [archiveProject_eq, SidebarStore.setUnitsArchived]
  obtain ⟨hteams, hconvs⟩ := lookup_setTeamsArchived (some now)
    (v.projectTeams userId projectId .active) v.sidebar projectTeams_owned
  obtain ⟨hteams', hconvs'⟩ := lookup_setConversationsArchived userId (some now)
    (v.projectConvs userId projectId .active)
    ((v.projectTeams userId projectId .active).foldl
      (fun s team ↦ (s.setTeamArchived userId team.id (some now)).getD s) v.sidebar)
  refine reachesGroup_iff (fun id ↦ ∃ team ∈ v.projectTeams userId projectId .active,
    (v.sidebar.conversations.lookup id).bind (·.extra.teamMarker) = some team.id) ?_ ?_
  · intro team hteam
    obtain ⟨row, hrow, huser, hholds⟩ := SidebarStore.mem_listTeamsThin_iff.mp ⟨team, hteam, rfl⟩
    rw [SidebarStore.Archived, hteams', hteams, hrow]
    have hactive : row.archivedAt = none := Option.isNone_iff_eq_none.mp hholds
    by_cases hid : team.id ∈ (v.projectTeams userId projectId .active).map (·.id)
    · simp [hid, huser]
    · simp [hid, hactive]
  · intro conv hconv
    obtain ⟨row, hrow, huser, hholds, -⟩ := SidebarStore.mem_listConversationsThin hconv
    have hactive : row.archivedAt = none := Option.isNone_iff_eq_none.mp hholds
    rw [SidebarStore.Archived, hconvs', hconvs, hrow, Filed, ← List.mem_map]
    by_cases hmarked : ∃ team ∈ v.projectTeams userId projectId .active,
        row.extra.teamMarker = some team.id <;>
      by_cases hfiled : conv.id ∈ (v.projectConvs userId projectId .active).map (·.id) <;>
      simp [huser, hmarked, hfiled, hactive]

end Archive

/-- What is deleted and archived with a project is what is shown in it, and is counted in advance,
exactly if what its teams take along is shown in them. -/
theorem deletesWhatIsShown_iff (v : SidebarService R J) (userId projectId : String)
    (responseName : String → String) (now : ℤ) :
    v.DeletesWhatIsShown userId projectId responseName now ↔ v.Confined userId projectId := by
  have hremoved := reaches_iff_agents (v.removes_removeProject userId projectId responseName)
  have hdeleted := reaches_iff_agents (v.removes_deleteArchivedProject userId projectId)
  have harchived := v.archives_iff_markers userId projectId now
  have hcounted := v.counted_iff userId projectId responseName
  constructor
  · intro h
    refine ⟨fun id hid slice conv hconv hsame ↦ ?_, hdeleted.mp ⟨h.deleted, h.keptActive⟩,
      fun team hteam conv hconv hmarker ↦ harchived.mp h.archived conv hconv ⟨team, hteam, hmarker⟩⟩
    exact (hremoved.mp ⟨h.removed, h.keptArchived⟩ id hid slice conv hconv hsame).resolve_right
      (hcounted.mp h.counted id hid)
  · intro h
    obtain ⟨hreach, hspare⟩ := hremoved.mpr fun id hid slice conv hconv hsame ↦
      Or.inl (h.agents id hid slice conv hconv hsame)
    obtain ⟨hreach', hspare'⟩ := hdeleted.mpr h.archivedAgents
    refine ⟨hreach, hspare, harchived.mpr ?_, hreach', hspare', hcounted.mpr ?_⟩
    · rintro conv hconv ⟨team, hteam, hmarker⟩
      exact h.markers team hteam conv hconv hmarker
    · intro id hid hfiled
      obtain ⟨conv, hconv, hsame⟩ := listed_of_folded_or_filed (Or.inr hfiled)
      exact not_filed_of_folded (h.agents id hid _ conv hconv hsame) hfiled

theorem emptyId_notMem (row : ProjectRow) :
    "" ∉ AList.insert "p" row (∅ : Table String ProjectRow) := by
  rw [AList.mem_insert, not_or]
  exact ⟨by simp, AList.notMem_empty ""⟩

def splitTeam : SidebarService CursorPayload CursorPayload where
  sidebar :=
    { conversations :=
        AList.insert "c" ⟨"u", none, ⟨none, none, some "t", false⟩, true, none, 0, 0⟩ ∅
      teams := AList.insert "t" ⟨"u", "team", some "p", none, ["c"], some 1, 0, 0⟩ ∅
      projects := AList.insert "p" ⟨"u", .standard, none, 0⟩ ∅ }
  userOrder := .empty
  canonical := some
  wire := plainWire
  projectIds := emptyId_notMem _

/-- Deleting the archived units of the project deletes the agent, which is active and shown in the
chats. -/
theorem activeAgent_deleted :
    ¬ ∀ (v : SidebarService CursorPayload CursorPayload) (userId projectId : String)
      (responseName : String → String) (now : ℤ),
      v.DeletesWhatIsShown userId projectId responseName now := by
  intro h
  have hspares := (h splitTeam "u" "p" id 2).keptActive
  have hgone : (splitTeam.sidebar.deleteArchivedProject some "u" "p").conversations.lookup "c" =
      none := by decide
  exact hspares.conversations ⟨"c", none, none, some "t", 0, 0⟩ (by decide) hgone

end SidebarService

end Zaowutai.Sidebar
