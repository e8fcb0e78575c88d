import Zaowutai.Sidebar.SidebarArchive

/-!
# A team and its members

The members of a team stay in the slice of their team as long as no member is
archived or restored alone.  While they do, no member is taken for an independent
conversation, so that the archive deletes members with their teams only.
-/

namespace Zaowutai.Sidebar.SidebarStore

open Zaowutai.Lib

variable {s s' : SidebarStore} {userId id cid tid : String} {conv : ConversationRow}
  {team : TeamRow} {archivedAt : Option ℤ}

structure Member (s : SidebarStore) (cid : String) (conv : ConversationRow) (tid : String)
    (team : TeamRow) : Prop where
  stored : s.conversations.lookup cid = some conv
  team_stored : s.teams.lookup tid = some team
  user : conv.userId = team.userId
  named : conv.team = some tid

def Unity (s : SidebarStore) : Prop :=
  ∀ cid conv tid team, s.Member cid conv tid team →
    conv.archivedAt.isSome = team.archivedAt.isSome

def Undivided (s s' : SidebarStore) : Prop :=
  ∀ cid conv tid team, s.Member cid conv tid team → s'.conversations.lookup cid = none →
    s'.teams.lookup tid = none

def Independent (s : SidebarStore) (userId cid : String) : Prop :=
  ∀ conv tid team, s.Member cid conv tid team → conv.userId ≠ userId

theorem teamMarker_of_team (h : conv.team = some tid) : conv.extra.teamMarker = some tid := by
  rw [ConversationRow.team, nonBlank, Option.filter_eq_some_iff] at h
  exact h.1

section Listing

theorem mem_listConversationsThin {thin : SidebarConversationThin} {scope : ArchiveScope}
    (h : thin ∈ s.listConversationsThin userId scope) :
    ∃ row, s.conversations.lookup thin.id = some row ∧ row.userId = userId ∧
      scope.holds row.archivedAt = true ∧ thin.teamId = row.team := by
  obtain ⟨⟨id, row⟩, hmem, hsome⟩ := List.mem_filterMap.mp h
  simp only [Option.ite_none_right_eq_some, Option.some.injEq] at hsome
  obtain ⟨⟨huser, hscope, -⟩, rfl⟩ := hsome
  exact ⟨row, Table.mem_entries_iff.mp hmem, huser, hscope, rfl⟩

theorem mem_listTeamsThin_iff {scope : ArchiveScope} :
    (∃ thin ∈ s.listTeamsThin userId scope, thin.id = tid) ↔
      ∃ row, s.teams.lookup tid = some row ∧ row.userId = userId ∧
        scope.holds row.archivedAt = true := by
  constructor
  · rintro ⟨thin, hthin, rfl⟩
    obtain ⟨⟨id, row⟩, hmem, hsome⟩ := List.mem_filterMap.mp hthin
    simp only [Option.ite_none_right_eq_some, Option.some.injEq] at hsome
    obtain ⟨⟨huser, hscope⟩, rfl⟩ := hsome
    exact ⟨row, Table.mem_entries_iff.mp hmem, huser, hscope⟩
  · rintro ⟨row, hrow, huser, hscope⟩
    refine ⟨⟨tid, row.name, nonBlank row.projectId, nonBlank row.workspace, row.updatedAt,
      row.createdAt⟩, List.mem_filterMap.mpr ⟨⟨tid, row⟩, Table.mem_entries_iff.mpr hrow, ?_⟩, rfl⟩
    exact if_pos ⟨huser, hscope⟩

theorem holds_congr {scope : ArchiveScope} {a b : Option ℤ} (h : a.isSome = b.isSome) :
    scope.holds a = scope.holds b := by
  cases scope with
  | active => simp only [ArchiveScope.holds, ← Option.not_isSome, h]
  | archived => exact h

theorem Unity.independent (h : s.Unity) {scope : ArchiveScope} {thin : SidebarConversationThin}
    (hthin : thin ∈ (aggregateTeams (s.listConversationsThin userId scope)
      (s.listTeamsThin userId scope)).2) : s.Independent userId thin.id := by
  obtain ⟨hlisted, hloose⟩ := List.mem_filter.mp hthin
  obtain ⟨row, hrow, huser, hscope, hteam⟩ := mem_listConversationsThin hlisted
  intro conv tid team hmember hsame
  obtain rfl := Option.some.inj (hrow.symm.trans hmember.stored)
  have hlive : ∃ thin ∈ s.listTeamsThin userId scope, thin.id = tid := by
    refine mem_listTeamsThin_iff.mpr ⟨team, hmember.team_stored, hmember.user ▸ huser, ?_⟩
    rw [← holds_congr (h _ _ _ _ hmember)]
    exact hscope
  have hmem : isMember (s.listTeamsThin userId scope) thin = true := by
    rw [isMember, hteam, hmember.named]
    simpa using hlive
  simp [hmem] at hloose

end Listing

section Archive

def unslicedConversation (row : ConversationRow) : ConversationRow :=
  { row with archivedAt := none }

def unslicedTeam (row : TeamRow) : TeamRow := { row with archivedAt := none }

/-- The stores differ in the slices of their rows only. -/
structure Reslices (s s' : SidebarStore) : Prop where
  conversations : ∀ cid, (s'.conversations.lookup cid).map unslicedConversation =
    (s.conversations.lookup cid).map unslicedConversation
  teams : ∀ tid, (s'.teams.lookup tid).map unslicedTeam = (s.teams.lookup tid).map unslicedTeam

theorem Reslices.refl (s : SidebarStore) : s.Reslices s := ⟨fun _ ↦ rfl, fun _ ↦ rfl⟩

theorem Reslices.trans {s'' : SidebarStore} (h : s.Reslices s') (h' : s'.Reslices s'') :
    s.Reslices s'' :=
  ⟨fun cid ↦ (h'.conversations cid).trans (h.conversations cid),
    fun tid ↦ (h'.teams tid).trans (h.teams tid)⟩

theorem Reslices.member (h : s.Reslices s') (hmember : s'.Member cid conv tid team) :
    ∃ conv₀ team₀, s.Member cid conv₀ tid team₀ ∧ conv₀.userId = conv.userId := by
  have hconv := h.conversations cid
  have hteam := h.teams tid
  rw [hmember.stored, Option.map_some, eq_comm, Option.map_eq_some_iff] at hconv
  rw [hmember.team_stored, Option.map_some, eq_comm, Option.map_eq_some_iff] at hteam
  obtain ⟨conv₀, hconv₀, heq⟩ := hconv
  obtain ⟨team₀, hteam₀, heq'⟩ := hteam
  have huser : conv₀.userId = conv.userId := (congrArg ConversationRow.userId heq :)
  have hextra : conv₀.extra = conv.extra := (congrArg ConversationRow.extra heq :)
  have huser' : team₀.userId = team.userId := (congrArg TeamRow.userId heq' :)
  refine ⟨conv₀, team₀, ⟨hconv₀, hteam₀, ?_, ?_⟩, huser⟩
  · rw [huser, hmember.user, huser']
  · rw [ConversationRow.team, hextra]
    exact hmember.named

theorem Reslices.independent (h : s.Reslices s') (hcid : s.Independent userId cid) :
    s'.Independent userId cid := by
  intro conv tid team hmember hsame
  obtain ⟨conv₀, team₀, hmember₀, huser⟩ := h.member hmember
  exact hcid conv₀ tid team₀ hmember₀ (huser.trans hsame)

theorem Reslices.undivided (h : s.Reslices s') : s.Undivided s' := by
  intro cid conv tid team hmember hgone
  have hconv := h.conversations cid
  rw [hgone, hmember.stored] at hconv
  cases hconv

theorem lookup_setConversationArchived :
    ((s.setConversationArchived userId id archivedAt).getD s).conversations.lookup cid =
      (s.conversations.lookup cid).map fun row ↦
        if cid = id ∧ row.userId = userId then { row with archivedAt } else row := by
  rw [setConversationArchived]
  cases hrow : s.conversations.lookup id with
  | none =>
      rw [Option.getD_none]
      cases hcid : s.conversations.lookup cid with
      | none => rfl
      | some row =>
          have hne : cid ≠ id := by
            rintro rfl
            rw [hrow] at hcid
            cases hcid
          simp [hne]
  | some row =>
      simp only
      by_cases huser : row.userId = userId
      · rw [if_pos huser, Option.getD_some, Table.lookup_modify]
        by_cases hcid : cid = id
        · subst hcid
          simp [hrow, huser]
        · simp [hcid]
      · rw [if_neg huser, Option.getD_none]
        by_cases hcid : cid = id
        · subst hcid
          simp [hrow, huser]
        · simp [hcid]

theorem teams_setConversationArchived :
    ((s.setConversationArchived userId id archivedAt).getD s).teams = s.teams := by
  rw [setConversationArchived]
  split
  · rfl
  · split <;> rfl

theorem reslices_setConversationArchived :
    s.Reslices ((s.setConversationArchived userId id archivedAt).getD s) where
  conversations cid := by
    rw [lookup_setConversationArchived, Option.map_map]
    refine congrArg (fun f ↦ (s.conversations.lookup cid).map f) (funext fun row ↦ ?_)
    simp only [Function.comp_apply]
    split <;> rfl
  teams tid := by rw [teams_setConversationArchived]

theorem setConversationArchived_unity_iff (hs : s.Unity) :
    ((s.setConversationArchived userId id archivedAt).getD s).Unity ↔
      ∀ conv tid team, s.Member id conv tid team → conv.userId = userId →
        team.archivedAt.isSome = archivedAt.isSome := by
  constructor
  · intro h conv tid team hmember huser
    have hmember' : ((s.setConversationArchived userId id archivedAt).getD s).Member id
        { conv with archivedAt } tid team :=
      { stored := by rw [lookup_setConversationArchived, hmember.stored]; simp [huser]
        team_stored := by rw [teams_setConversationArchived]; exact hmember.team_stored
        user := hmember.user
        named := hmember.named }
    exact (h _ _ _ _ hmember').symm
  · intro h cid conv' tid team hmember'
    have hstored := hmember'.stored
    have hteam := hmember'.team_stored
    rw [lookup_setConversationArchived, Option.map_eq_some_iff] at hstored
    rw [teams_setConversationArchived] at hteam
    obtain ⟨conv, hconv, heq⟩ := hstored
    by_cases hmoved : cid = id ∧ conv.userId = userId
    · rw [if_pos hmoved] at heq
      subst heq
      have hmember : s.Member id conv tid team :=
        ⟨hmoved.1 ▸ hconv, hteam, hmember'.user, hmember'.named⟩
      exact (h conv tid team hmember hmoved.2).symm
    · rw [if_neg hmoved] at heq
      subst heq
      exact hs cid conv tid team ⟨hconv, hteam, hmember'.user, hmember'.named⟩

theorem setTeamArchived_cases (s : SidebarStore) (userId id : String) (archivedAt : Option ℤ) :
    ((s.teams.lookup id).any (·.userId = userId) = false ∧
        (s.setTeamArchived userId id archivedAt).getD s = s) ∨
      (∀ tid, ((s.setTeamArchived userId id archivedAt).getD s).teams.lookup tid =
        (s.teams.lookup tid).map fun row ↦
          if row.userId = userId ∧ tid = id then { row with archivedAt } else row) ∧
      ∀ cid, ((s.setTeamArchived userId id archivedAt).getD s).conversations.lookup cid =
        (s.conversations.lookup cid).map fun row ↦
          if row.userId = userId ∧ row.extra.teamMarker = some id then { row with archivedAt }
          else row := by
  rw [setTeamArchived]
  cases hrow : s.teams.lookup id with
  | none => exact Or.inl ⟨rfl, rfl⟩
  | some row =>
      simp only
      by_cases huser : row.userId = userId
      · rw [if_pos huser, Option.getD_some]
        refine Or.inr ⟨fun tid ↦ ?_, fun cid ↦ Table.lookup_mapValues _⟩
        rw [Table.lookup_modify]
        by_cases htid : tid = id
        · subst htid
          simp [hrow, huser]
        · simp [htid]
      · rw [if_neg huser]
        exact Or.inl ⟨decide_eq_false huser, rfl⟩

theorem reslices_setTeamArchived :
    s.Reslices ((s.setTeamArchived userId id archivedAt).getD s) := by
  obtain ⟨-, hsame⟩ | ⟨hteams, hconvs⟩ := s.setTeamArchived_cases userId id archivedAt
  · rw [hsame]
    exact Reslices.refl s
  · constructor
    · intro cid
      rw [hconvs, Option.map_map]
      refine congrArg (fun f ↦ (s.conversations.lookup cid).map f) (funext fun row ↦ ?_)
      simp only [Function.comp_apply]
      split <;> rfl
    · intro tid
      rw [hteams, Option.map_map]
      refine congrArg (fun f ↦ (s.teams.lookup tid).map f) (funext fun row ↦ ?_)
      simp only [Function.comp_apply]
      split <;> rfl

theorem Unity.setTeamArchived (hs : s.Unity) :
    ((s.setTeamArchived userId id archivedAt).getD s).Unity := by
  obtain ⟨-, hsame⟩ | ⟨hteams, hconvs⟩ := s.setTeamArchived_cases userId id archivedAt
  · rw [hsame]
    exact hs
  · intro cid conv' tid team' hmember'
    have hstored := hmember'.stored
    have hteam := hmember'.team_stored
    rw [hconvs, Option.map_eq_some_iff] at hstored
    rw [hteams, Option.map_eq_some_iff] at hteam
    obtain ⟨conv, hconv, heq⟩ := hstored
    obtain ⟨team, hteam, heq'⟩ := hteam
    have huser : conv'.userId = conv.userId := by
      rw [← heq]
      split <;> rfl
    have huser' : team'.userId = team.userId := by
      rw [← heq']
      split <;> rfl
    have hextra : conv'.extra = conv.extra := by
      rw [← heq]
      split <;> rfl
    have hmember : s.Member cid conv tid team :=
      { stored := hconv
        team_stored := hteam
        user := by rw [← huser, hmember'.user, huser']
        named := by rw [ConversationRow.team, ← hextra]; exact hmember'.named }
    -- The member is moved exactly when its team is.
    have hmoved : conv.userId = userId ∧ conv.extra.teamMarker = some id ↔
        team.userId = userId ∧ tid = id := by
      rw [teamMarker_of_team hmember.named, hmember.user, Option.some.injEq]
    rw [← heq, ← heq']
    by_cases htid : team.userId = userId ∧ tid = id
    · rw [if_pos htid, if_pos (hmoved.mpr htid)]
    · rw [if_neg htid, if_neg (mt hmoved.mp htid)]
      exact hs cid conv tid team hmember

theorem Unity.setUnitsArchived (hs : s.Unity) {teams : List SidebarTeamThin}
    {convs : List SidebarConversationThin}
    (hconvs : ∀ conv ∈ convs, s.Independent userId conv.id) :
    (s.setUnitsArchived userId archivedAt teams convs).Unity ∧
      s.Reslices (s.setUnitsArchived userId archivedAt teams convs) := by
  have hteams : ∀ (teams : List SidebarTeamThin) (s : SidebarStore), s.Unity →
      (teams.foldl (fun s team ↦ (s.setTeamArchived userId team.id archivedAt).getD s) s).Unity ∧
      s.Reslices
        (teams.foldl (fun s team ↦ (s.setTeamArchived userId team.id archivedAt).getD s) s) := by
    intro teams
    induction teams with
    | nil => exact fun s hs ↦ ⟨hs, Reslices.refl s⟩
    | cons team teams ih =>
        intro s hs
        obtain ⟨hunity, hreslices⟩ := ih _ hs.setTeamArchived
        exact ⟨hunity, reslices_setTeamArchived.trans hreslices⟩
  obtain ⟨hunity, hreslices⟩ := hteams teams s hs
  rw [SidebarStore.setUnitsArchived]
  generalize teams.foldl (fun s team ↦ (s.setTeamArchived userId team.id archivedAt).getD s) s = s₁
    at hunity hreslices ⊢
  have hloose : ∀ conv ∈ convs, s₁.Independent userId conv.id :=
    fun conv hconv ↦ hreslices.independent (hconvs conv hconv)
  clear hconvs
  induction convs generalizing s₁ with
  | nil => exact ⟨hunity, hreslices⟩
  | cons conv convs ih =>
      have hstep : s₁.Reslices ((s₁.setConversationArchived userId conv.id archivedAt).getD s₁) :=
        reslices_setConversationArchived
      apply ih
      · refine (setConversationArchived_unity_iff hunity).mpr ?_
        intro conv' tid team hmember huser
        exact absurd huser (hloose conv List.mem_cons_self conv' tid team hmember)
      · exact hreslices.trans hstep
      · intro conv' hconv'
        exact hstep.independent (hloose conv' (List.mem_cons_of_mem conv hconv'))

end Archive

section Delete

/-- The rows of the user with these keys are gone, and no others. -/
structure Prunes (s s' : SidebarStore) (userId : String) (cids tids : List String) : Prop where
  conversations : ∀ cid, s'.conversations.lookup cid =
    if cid ∈ cids then (s.conversations.lookup cid).filter (·.userId ≠ userId)
    else s.conversations.lookup cid
  teams : ∀ tid, s'.teams.lookup tid =
    if tid ∈ tids then (s.teams.lookup tid).filter (·.userId ≠ userId) else s.teams.lookup tid

variable {s'' : SidebarStore} {cids cids' tids tids' : List String}

theorem Prunes.refl (s : SidebarStore) (userId : String) : s.Prunes s userId [] [] :=
  ⟨fun _ ↦ rfl, fun _ ↦ rfl⟩

theorem Prunes.trans (h : s.Prunes s' userId cids tids) (h' : s'.Prunes s'' userId cids' tids') :
    s.Prunes s'' userId (cids ++ cids') (tids ++ tids') := by
  constructor
  · intro cid
    rw [h'.conversations, h.conversations]
    by_cases h₁ : cid ∈ cids <;> by_cases h₂ : cid ∈ cids' <;> simp [h₁, h₂, Option.filter_filter]
  · intro tid
    rw [h'.teams, h.teams]
    by_cases h₁ : tid ∈ tids <;> by_cases h₂ : tid ∈ tids' <;> simp [h₁, h₂, Option.filter_filter]

theorem Prunes.congr (h : s.Prunes s' userId cids tids) (hcids : ∀ cid, cid ∈ cids ↔ cid ∈ cids') :
    s.Prunes s' userId cids' tids := by
  refine ⟨fun cid ↦ ?_, h.teams⟩
  rw [h.conversations, if_congr (hcids cid) rfl rfl]

theorem Prunes.unity (h : s.Prunes s' userId cids tids) (hs : s.Unity) : s'.Unity := by
  intro cid conv tid team hmember
  refine hs cid conv tid team ⟨?_, ?_, hmember.user, hmember.named⟩
  · have hstored := hmember.stored
    rw [h.conversations] at hstored
    split at hstored
    · exact (Option.filter_eq_some_iff.mp hstored).1
    · exact hstored
  · have hstored := hmember.team_stored
    rw [h.teams] at hstored
    split at hstored
    · exact (Option.filter_eq_some_iff.mp hstored).1
    · exact hstored

theorem Prunes.undivided_iff (h : s.Prunes s' userId cids tids) :
    s.Undivided s' ↔ ∀ cid conv tid team, s.Member cid conv tid team → conv.userId = userId →
      cid ∈ cids → tid ∈ tids := by
  have hgone : ∀ cid conv tid team, s.Member cid conv tid team →
      (s'.conversations.lookup cid = none ↔ cid ∈ cids ∧ conv.userId = userId) ∧
      (s'.teams.lookup tid = none ↔ tid ∈ tids ∧ conv.userId = userId) := by
    intro cid conv tid team hmember
    rw [h.conversations, h.teams, hmember.stored, hmember.team_stored, hmember.user]
    constructor
    · by_cases hcid : cid ∈ cids <;> simp [hcid, hmember.user]
    · by_cases htid : tid ∈ tids <;> simp [htid]
  constructor
  · intro hwhole cid conv tid team hmember huser hcid
    obtain ⟨hconv, hteam⟩ := hgone cid conv tid team hmember
    exact (hteam.mp (hwhole cid conv tid team hmember (hconv.mpr ⟨hcid, huser⟩))).1
  · intro hclosed cid conv tid team hmember hnone
    obtain ⟨hconv, hteam⟩ := hgone cid conv tid team hmember
    obtain ⟨hcid, huser⟩ := hconv.mp hnone
    exact hteam.mpr ⟨hclosed cid conv tid team hmember huser hcid, huser⟩

theorem prunes_deleteConversation : s.Prunes (s.deleteConversation userId id) userId [id] [] := by
  rw [deleteConversation]
  cases hrow : s.conversations.lookup id with
  | none =>
      refine ⟨fun cid ↦ ?_, fun tid ↦ rfl⟩
      by_cases hcid : cid = id
      · subst hcid
        simp [hrow]
      · simp [hcid]
  | some row =>
      simp only
      by_cases huser : row.userId = userId
      · rw [if_pos huser]
        refine ⟨fun cid ↦ ?_, fun tid ↦ rfl⟩
        rw [Table.lookup_erase_eq]
        by_cases hcid : cid = id
        · subst hcid
          simp [hrow, Option.filter_some, huser]
        · simp [hcid]
      · rw [if_neg huser]
        refine ⟨fun cid ↦ ?_, fun tid ↦ rfl⟩
        by_cases hcid : cid = id
        · subst hcid
          simp [hrow, Option.filter_some, huser]
        · simp [hcid]

theorem prunes_deleteConversations (userId : String) (ids : List String) (s : SidebarStore) :
    s.Prunes (ids.foldl (fun s id ↦ s.deleteConversation userId id) s) userId ids [] := by
  induction ids generalizing s with
  | nil => exact Prunes.refl s userId
  | cons id ids ih => exact prunes_deleteConversation.trans (ih _)

def agentsOf (s : SidebarStore) (userId id : String) : List String :=
  match s.teams.lookup id with
  | none => []
  | some row => if row.userId = userId then row.agents else []

theorem prunes_removeTeam :
    s.Prunes (s.removeTeam userId id) userId (s.agentsOf userId id) [id] := by
  rw [removeTeam, agentsOf]
  cases hrow : s.teams.lookup id with
  | none =>
      refine ⟨fun cid ↦ rfl, fun tid ↦ ?_⟩
      by_cases htid : tid = id
      · subst htid
        simp [hrow]
      · simp [htid]
  | some row =>
      simp only
      by_cases huser : row.userId = userId
      · rw [if_pos huser, if_pos huser]
        have hagents := prunes_deleteConversations userId row.agents s
        refine ⟨hagents.conversations, fun tid ↦ ?_⟩
        have hteams := hagents.teams tid
        rw [if_neg List.not_mem_nil] at hteams
        rw [Table.lookup_erase_eq, hteams]
        by_cases htid : tid = id
        · subst htid
          simp [hrow, Option.filter_some, huser]
        · simp [htid]
      · rw [if_neg huser, if_neg huser]
        refine ⟨fun cid ↦ rfl, fun tid ↦ ?_⟩
        by_cases htid : tid = id
        · subst htid
          simp [hrow, Option.filter_some, huser]
        · simp [htid]

theorem Prunes.agentsOf_eq (h : s.Prunes s' userId cids tids) :
    s'.agentsOf userId id = if id ∈ tids then [] else s.agentsOf userId id := by
  rw [agentsOf, agentsOf, h.teams]
  by_cases hid : id ∈ tids
  · rw [if_pos hid, if_pos hid]
    cases s.teams.lookup id with
    | none => rfl
    | some row =>
        by_cases huser : row.userId = userId <;> simp [Option.filter_some, huser]
  · rw [if_neg hid, if_neg hid]

theorem prunes_removeTeams (teams : List SidebarTeamThin) (s : SidebarStore) :
    s.Prunes (teams.foldl (fun s team ↦ s.removeTeam userId team.id) s) userId
      (teams.flatMap fun team ↦ s.agentsOf userId team.id) (teams.map (·.id)) := by
  induction teams generalizing s with
  | nil => exact Prunes.refl s userId
  | cons team teams ih =>
      have hfirst : s.Prunes (s.removeTeam userId team.id) userId (s.agentsOf userId team.id)
          [team.id] := prunes_removeTeam
      refine (hfirst.trans (ih _)).congr fun cid ↦ ?_
      -- A team that is named twice has lost its agents the first time.
      rw [List.flatMap_cons, List.mem_append, List.mem_append]
      constructor
      · rintro (hcid | hcid)
        · exact Or.inl hcid
        · obtain ⟨other, hother, hcid⟩ := List.mem_flatMap.mp hcid
          rw [hfirst.agentsOf_eq] at hcid
          split at hcid
          · cases hcid
          · exact Or.inr (List.mem_flatMap.mpr ⟨other, hother, hcid⟩)
      · rintro (hcid | hcid)
        · exact Or.inl hcid
        · obtain ⟨other, hother, hcid⟩ := List.mem_flatMap.mp hcid
          by_cases hsame : other.id = team.id
          · exact Or.inl (hsame ▸ hcid)
          · refine Or.inr (List.mem_flatMap.mpr ⟨other, hother, ?_⟩)
            rw [hfirst.agentsOf_eq, if_neg (by simpa using hsame)]
            exact hcid

theorem prunes_removeUnits {teams : List SidebarTeamThin} {convs : List SidebarConversationThin} :
    s.Prunes (s.removeUnits userId teams convs) userId
      ((teams.flatMap fun team ↦ s.agentsOf userId team.id) ++ convs.map (·.id))
      (teams.map (·.id)) := by
  rw [removeUnits]
  have hconvs := prunes_deleteConversations userId (convs.map (·.id))
    (teams.foldl (fun s team ↦ s.removeTeam userId team.id) s)
  rw [List.foldl_map] at hconvs
  simpa using (prunes_removeTeams teams s).trans hconvs

def AgentsWithin (s : SidebarStore) (userId : String) (tids : List String) : Prop :=
  ∀ cid conv tid team, s.Member cid conv tid team → conv.userId = userId →
    (∃ id ∈ tids, cid ∈ s.agentsOf userId id) → tid ∈ tids

theorem removeTeam_undivided_iff :
    s.Undivided (s.removeTeam userId id) ↔ s.AgentsWithin userId [id] := by
  rw [prunes_removeTeam.undivided_iff, AgentsWithin]
  simp

theorem removeUnits_undivided_iff {teams : List SidebarTeamThin}
    {convs : List SidebarConversationThin} (hconvs : ∀ conv ∈ convs, s.Independent userId conv.id) :
    s.Undivided (s.removeUnits userId teams convs) ↔
      s.AgentsWithin userId (teams.map (·.id)) := by
  rw [prunes_removeUnits.undivided_iff, AgentsWithin]
  refine forall₄_congr fun cid conv tid team ↦ forall₂_congr fun hmember huser ↦ ?_
  have hloose : cid ∉ convs.map (·.id) := by
    intro hcid
    obtain ⟨thin, hthin, rfl⟩ := List.mem_map.mp hcid
    exact hconvs thin hthin conv tid team hmember huser
  simp only [List.mem_append, List.mem_flatMap, hloose, or_false, List.mem_map,
    exists_exists_and_eq_and]

end Delete

section Steps

variable {canonical : String → Option String} {a : SidebarAction} {now : ℤ} {projectId : String}

theorem Unity.collected (hs : s.Unity) {scope : ArchiveScope} {teams : List SidebarTeamThin}
    {convs : List SidebarConversationThin}
    (h : collectProjectUnits canonical s userId projectId scope = some (teams, convs)) :
    ∀ conv ∈ convs, s.Independent userId conv.id := by
  intro conv hconv
  rw [collectProjectUnits] at h
  split at h
  · cases h
  · split at h
    · cases h
      exact hs.independent (List.mem_filter.mp hconv).1
    · cases h

def Keeps (canonical : String → Option String) (s : SidebarStore) : SidebarAction → Prop
  | .archiveConversation userId id _ => ∀ conv tid team, s.Member id conv tid team →
      conv.userId = userId → team.archivedAt.isSome = true
  | .unarchiveConversation userId id => ∀ conv tid team, s.Member id conv tid team →
      conv.userId = userId → team.archivedAt.isSome = false
  | .deleteArchivedTeam userId id =>
      (s.listTeamsThin userId .archived).any (fun team ↦ team.id = id) = true →
        s.AgentsWithin userId [id]
  | .deleteArchivedProject userId projectId => ∀ teams convs,
      collectProjectUnits canonical s userId projectId .archived = some (teams, convs) →
        s.AgentsWithin userId (teams.map (·.id))
  | .deleteAllArchived userId =>
      s.AgentsWithin userId ((s.listTeamsThin userId .archived).map (·.id))
  | _ => True

theorem step_iff (hs : s.Unity) :
    (s.step canonical a).Unity ∧ s.Undivided (s.step canonical a) ↔ s.Keeps canonical a := by
  cases a with
  | archiveConversation userId id now =>
      rw [step, setConversationArchived_unity_iff hs,
        and_iff_left reslices_setConversationArchived.undivided]
      rfl
  | unarchiveConversation userId id =>
      rw [step, setConversationArchived_unity_iff hs,
        and_iff_left reslices_setConversationArchived.undivided]
      rfl
  | archiveTeam userId id now =>
      exact iff_of_true ⟨hs.setTeamArchived, reslices_setTeamArchived.undivided⟩ trivial
  | unarchiveTeam userId id =>
      exact iff_of_true ⟨hs.setTeamArchived, reslices_setTeamArchived.undivided⟩ trivial
  | archiveProject userId projectId now =>
      refine iff_of_true ?_ trivial
      rw [step, archiveProject]
      split
      · exact ⟨hs, (Reslices.refl s).undivided⟩
      · next h =>
          obtain ⟨hunity, hreslices⟩ := hs.setUnitsArchived (hs.collected h)
          exact ⟨hunity, hreslices.undivided⟩
  | unarchiveProject userId projectId =>
      refine iff_of_true ?_ trivial
      rw [step, unarchiveProject]
      split
      · exact ⟨hs, (Reslices.refl s).undivided⟩
      · next h =>
          obtain ⟨hunity, hreslices⟩ := hs.setUnitsArchived (hs.collected h)
          exact ⟨hunity, hreslices.undivided⟩
  | deleteArchivedConversation userId id =>
      refine iff_of_true ?_ trivial
      rw [step, deleteArchivedConversation]
      split
      · next h =>
          refine ⟨prunes_deleteConversation.unity hs,
            prunes_deleteConversation.undivided_iff.mpr ?_⟩
          intro cid conv tid team hmember huser hcid
          obtain ⟨thin, hthin, hid⟩ := List.any_eq_true.mp h
          rw [List.mem_singleton, ← of_decide_eq_true hid] at hcid
          exact absurd huser (hs.independent hthin conv tid team (hcid ▸ hmember))
      · exact ⟨hs, (Reslices.refl s).undivided⟩
  | deleteArchivedTeam userId id =>
      rw [step, deleteArchivedTeam, Keeps]
      split
      · next h =>
          rw [removeTeam_undivided_iff, and_iff_right (prunes_removeTeam.unity hs),
            forall_prop_of_true h]
      · next h => exact iff_of_true ⟨hs, (Reslices.refl s).undivided⟩ fun h' ↦ absurd h' h
  | deleteArchivedProject userId projectId =>
      rw [step, deleteArchivedProject, Keeps]
      split
      · next h =>
          refine iff_of_true ⟨hs, (Reslices.refl s).undivided⟩ fun teams convs h' ↦ ?_
          rw [h] at h'
          cases h'
      · next teams convs h =>
          rw [removeUnits_undivided_iff (hs.collected h),
            and_iff_right (prunes_removeUnits.unity hs)]
          constructor
          · intro hwithin teams' convs' h'
            rw [h] at h'
            cases h'
            exact hwithin
          · exact fun hwithin ↦ hwithin teams convs h
  | deleteAllArchived userId =>
      rw [step, deleteAllArchived, removeUnits_undivided_iff fun conv hconv ↦ hs.independent hconv,
        and_iff_right (prunes_removeUnits.unity hs)]
      rfl

def Unarchived (s : SidebarStore) : Prop :=
  (∀ cid conv, s.conversations.lookup cid = some conv → conv.archivedAt = none) ∧
    ∀ tid team, s.teams.lookup tid = some team → team.archivedAt = none

theorem Unarchived.unity (h : s.Unarchived) : s.Unity := by
  intro cid conv tid team hmember
  rw [h.1 cid conv hmember.stored, h.2 tid team hmember.team_stored]

/-- A team and its members are in one slice and are deleted together, in exactly the runs that
move no member away from its team. -/
theorem together_iff_keeps (h : s.Unarchived) (as : List SidebarAction) :
    Throughout (step canonical) Unity s as ∧
        Meets (step canonical) (fun s a ↦ s.Undivided (s.step canonical a)) s as ↔
      Meets (step canonical) (Keeps canonical) s as := by
  rw [throughout_and_meets, and_iff_right h.unity]
  have hstep : ∀ (s : SidebarStore) (a : SidebarAction), s.Unity →
      ((s.step canonical a).Unity ∧ s.Undivided (s.step canonical a) ↔ s.Keeps canonical a) :=
    fun s a hs ↦ step_iff hs
  exact meets_iff_meets (fun s a hs ha ↦ ((hstep s a hs).mpr ha).1) hstep h.unity

def pair (archivedAt : Option ℤ) : SidebarStore where
  conversations :=
    AList.insert "c" ⟨"u", none, ⟨none, none, some "t", false⟩, true, archivedAt, 0, 0⟩ ∅
  teams := AList.insert "t" ⟨"u", "team", none, none, ["c"], archivedAt, 0, 0⟩ ∅
  projects := ∅

theorem pair_conversation (h : (pair archivedAt).conversations.lookup cid = some conv) :
    cid = "c" ∧ conv.archivedAt = archivedAt := by
  rw [pair, Table.lookup_insert_eq] at h
  split at h
  · next hcid =>
      cases h
      exact ⟨hcid, rfl⟩
  · cases h

theorem pair_team (h : (pair archivedAt).teams.lookup tid = some team) :
    tid = "t" ∧ team.archivedAt = archivedAt := by
  rw [pair, Table.lookup_insert_eq] at h
  split at h
  · next htid =>
      cases h
      exact ⟨htid, rfl⟩
  · cases h

theorem pair_unarchived : (pair none).Unarchived :=
  ⟨fun _ _ h ↦ (pair_conversation h).2, fun _ _ h ↦ (pair_team h).2⟩

/-- The agent is archived with its team, again alone, and deleted with the team. -/
theorem pair_together :
    let as : List SidebarAction := [.archiveTeam "u" "t" 1, .archiveConversation "u" "c" 1,
      .deleteArchivedConversation "u" "c", .deleteArchivedTeam "u" "t"]
    Throughout (step fun _ ↦ none) Unity (pair none) as ∧
      Meets (step fun _ ↦ none) (fun s a ↦ s.Undivided (s.step (fun _ ↦ none) a)) (pair none)
        as := by
  refine (together_iff_keeps pair_unarchived _).mpr ⟨trivial, ?_, trivial, ?_, trivial⟩
  · intro conv tid team hmember huser
    have hteam : (pair (some 1)).teams.lookup tid = some team := hmember.team_stored
    rw [(pair_team hteam).2]
    rfl
  · intro _ cid conv tid team hmember huser _
    have hteam : (pair (some 1)).teams.lookup tid = some team := hmember.team_stored
    rw [(pair_team hteam).1]
    exact List.mem_singleton_self "t"

/-- The agent is archived alone and then deleted as if it were independent. -/
theorem archived_member_deleted :
    ¬ ∀ (canonical : String → Option String) (s : SidebarStore) (as : List SidebarAction),
      s.Unarchived → Throughout (step canonical) Unity s as ∧
        Meets (step canonical) (fun s a ↦ s.Undivided (s.step canonical a)) s as := by
  intro h
  have hrun := (h (fun _ ↦ none) (pair none)
    [.archiveConversation "u" "c" 1, .deleteArchivedConversation "u" "c"] pair_unarchived).2
  have hleft := hrun.2.1 "c" _ "t" _ ⟨rfl, rfl, rfl, by decide⟩ (by decide)
  exact absurd hleft (by decide)

end Steps

end Zaowutai.Sidebar.SidebarStore
