import Zaowutai.Sidebar.GroupWindows

/-!
# The sidebar is complete

Every group that the first screen returns is read to its end by following its
cursors, whatever the sizes of the windows, and the groups together hold every
team and every conversation outside of the teams whose row can be shown, each in
one place.
-/

namespace Zaowutai.Sidebar

open Zaowutai.Lib Zaowutai.Order

abbrev Limit := { limit : ℤ // 1 ≤ limit ∧ limit ≤ maxLimit }

def ScopeToken.key : ScopeToken → Option GroupKey
  | .pinned => none
  | .project id => some (.project id)
  | .dir canonical => some (.dir canonical)
  | .chats => some .chats

theorem ScopeToken.key_token (key : GroupKey) : key.token.key = some key := by
  cases key <;> rfl

theorem ScopeToken.token_of_key {token : ScopeToken} {key : GroupKey} (h : token.key = some key) :
    key.token = token := by
  cases token with
  | pinned => cases h
  | project id => exact Option.some.inj h ▸ rfl
  | dir canonical => exact Option.some.inj h ▸ rfl
  | chats => exact Option.some.inj h ▸ rfl

theorem ScopeToken.eq_pinned {token : ScopeToken} (h : token.key = none) : token = .pinned := by
  cases token with
  | pinned => rfl
  | project id => cases h
  | dir canonical => cases h
  | chats => cases h

namespace SidebarService

variable {R J : Type} {v : SidebarService R J} {userId : String} {scope : ArchiveScope}
  {key : GroupKey} {group : NaturalGroup} {rank : GroupKey → ℕ} {token token' : ScopeToken}

def shown (v : SidebarService R J) (userId : String) (scope : ArchiveScope) (token : ScopeToken) :
    List SidebarItem :=
  match token.key with
  | some key => (v.groupUnits userId scope key).filterMap (v.shownUnit userId scope)
  | none =>
      match scope with
      | .active => (v.userOrder.ordered userId .pinned).filterMap (v.shownPin userId)
      | .archived => []

def ReadsTo (v : SidebarService R J) (userId : String) (scope : ArchiveScope)
    (group : SidebarGroup R) (items : List SidebarItem) : Prop :=
  ∃ n, ∀ requests : List (Limit × (GroupKey → ℕ)), n ≤ requests.length →
    ∃ rest, v.follow userId scope (group.scope.toToken v.wire)
      (requests.map fun request ↦ (request.1.1, request.2)) group.nextCursor = .ok (rest, none) ∧
      group.items ++ rest = items

def Listed (v : SidebarService R J) (userId : String) (scope : ArchiveScope) (ref : OrderItemRef) :
    Prop :=
  match ref.itemType with
  | .team => ∃ team ∈ v.sidebar.listTeamsThin userId scope, team.id = ref.itemId
  | .conversation => ∃ conv ∈ independents (v.sidebar.listConversationsThin userId scope)
      (v.sidebar.listTeamsThin userId scope), conv.id = ref.itemId ∧
        ∃ row, v.sidebar.conversations.lookup conv.id = some row ∧ row.convertible = true

def MemberOf (v : SidebarService R J) (userId : String) (scope : ArchiveScope) (teamId id : String) :
    Prop :=
  ∃ conv ∈ v.sidebar.listConversationsThin userId scope, conv.id = id ∧ conv.teamId = some teamId

def MembersInside (v : SidebarService R J) (userId : String) (scope : ArchiveScope) :
    SidebarItem → Prop
  | .conversation id _ =>
      ∀ team ∈ v.sidebar.listTeamsThin userId scope, ¬v.MemberOf userId scope team.id id
  | .team agg _ => ∀ id, id ∈ agg.memberIds ↔ v.MemberOf userId scope agg.teamId id

structure Complete (v : SidebarService R J) (userId : String) (scope : ArchiveScope)
    (response : SidebarResponse R) : Prop where
  read : ∀ group ∈ response.groups, v.ReadsTo userId scope group (v.shown userId scope group.scope)
  once : ∀ token, ((v.shown userId scope token).map SidebarItem.ref).Nodup
  disjoint : ∀ token token', token ≠ token' → ∀ item ∈ v.shown userId scope token,
    ∀ item' ∈ v.shown userId scope token', item.ref ≠ item'.ref
  pinned : ∀ ref, v.Listed userId scope ref → ref ∈ v.pinnedSet userId scope →
    ref ∈ (v.shown userId scope .pinned).map SidebarItem.ref
  natural : ∀ ref, v.Listed userId scope ref → ref ∉ v.pinnedSet userId scope →
    ∃ key : GroupKey, ref ∈ (v.shown userId scope key.token).map SidebarItem.ref ∧
      (key.token ∈ response.groups.map SidebarGroup.scope ∨
        key ≠ .chats ∧ response.hasMoreGroups = true)
  members : ∀ token, ∀ item ∈ v.shown userId scope token, v.MembersInside userId scope item

theorem group_of_mem (h : group ∈ (v.classify userId scope rank).projectArea ++
    [(v.classify userId scope rank).chats]) :
    ∃ key, key ≠ .project "" ∧ group = ⟨key.token, v.groupUnits userId scope key⟩ ∧
      ∀ rank', (v.classify userId scope rank').group key.token =
        some ⟨key.token, v.groupUnits userId scope key⟩ := by
  obtain harea | hchats := List.mem_append.mp h
  · obtain ⟨key, hbuilder, hkey, rfl⟩ := mem_projectArea harea
    refine ⟨key, key_ne_empty hbuilder, rfl, fun rank' ↦ ?_⟩
    rw [classify_rank rank' rank]
    have hfind : (v.classify userId scope rank).projectArea.find?
        (fun group ↦ group.token = key.token) =
          some ⟨key.token, v.groupUnits userId scope key⟩ := by
      cases hfound : (v.classify userId scope rank).projectArea.find?
          fun group ↦ group.token = key.token with
      | none => exact absurd (List.find?_eq_none.mp hfound _ harea) (by simp)
      | some found =>
          obtain ⟨key', -, -, rfl⟩ := mem_projectArea (List.mem_of_find?_eq_some hfound)
          have htoken : key'.token = key.token := by simpa using List.find?_some hfound
          rw [GroupKey.token_injective htoken]
    cases key with
    | chats => exact absurd rfl hkey
    | project id => exact hfind
    | dir canonical => exact hfind
  · obtain rfl := List.mem_singleton.mp hchats
    refine ⟨.chats, (fun h ↦ by cases h), chats_eq, fun rank' ↦ ?_⟩
    exact congrArg some chats_eq

theorem windowOf_valid (limit : Option Limit) (win : List (String × Limit)) (token : String) :
    1 ≤ windowOf (limit.map Subtype.val) (win.map fun entry ↦ (entry.1, entry.2.1)) token := by
  have hdefault : 1 ≤ (limit.map Subtype.val).getD defaultLimit := by
    cases limit with
    | none => decide
    | some limit => exact limit.2.1
  rw [windowOf]
  cases hfind : (win.map fun entry ↦ (entry.1, entry.2.1)).reverse.find?
      fun entry ↦ entry.1 = token with
  | none => exact hdefault
  | some entry =>
      have hmem := List.mem_reverse.mp (List.mem_of_find?_eq_some hfind)
      obtain ⟨named, -, rfl⟩ := List.mem_map.mp hmem
      exact named.2.2.1

section Teams

variable {teamId id : String} {agg : TeamAgg} {item : GroupItemRef} {shownItem : SidebarItem}

theorem find_aggregate {team : SidebarTeamThin}
    (h : team ∈ v.sidebar.listTeamsThin userId scope) :
    ∃ agg, (v.aggregates userId scope).1.find? (fun agg ↦ agg.teamId = team.id) = some agg ∧
      agg.teamId = team.id := by
  have hmem : aggregateTeam (v.sidebar.listConversationsThin userId scope) team ∈
      (v.aggregates userId scope).1 := List.mem_map_of_mem h
  cases hfind : (v.aggregates userId scope).1.find? fun agg ↦ agg.teamId = team.id with
  | none => exact absurd (List.find?_eq_none.mp hfind _ hmem) (by simp [aggregateTeam])
  | some agg => exact ⟨agg, rfl, by simpa using List.find?_some hfind⟩

theorem mem_memberIds (h : agg ∈ (v.aggregates userId scope).1) :
    id ∈ agg.memberIds ↔ v.MemberOf userId scope agg.teamId id := by
  obtain ⟨team, -, rfl⟩ := List.mem_map.mp h
  simp only [aggregateTeam, List.mem_map, List.mem_insertionSort, List.mem_filter,
    decide_eq_true_iff, MemberOf]
  exact exists_congr fun conv ↦ by tauto

theorem mem_all_memberIds : id ∈ (v.aggregates userId scope).1.flatMap TeamAgg.memberIds ↔
    ∃ team ∈ v.sidebar.listTeamsThin userId scope, v.MemberOf userId scope team.id id := by
  rw [List.mem_flatMap]
  constructor
  · rintro ⟨agg, hagg, hid⟩
    have hmember := (mem_memberIds hagg).mp hid
    obtain ⟨team, hteam, rfl⟩ := List.mem_map.mp hagg
    exact ⟨team, hteam, hmember⟩
  · rintro ⟨team, hteam, hmember⟩
    have hagg : aggregateTeam (v.sidebar.listConversationsThin userId scope) team ∈
        (v.aggregates userId scope).1 := List.mem_map_of_mem hteam
    exact ⟨_, hagg, (mem_memberIds hagg).mpr hmember⟩

theorem not_member_of_independent {conv : SidebarConversationThin}
    (h : conv ∈ (v.aggregates userId scope).2) :
    ¬∃ team ∈ v.sidebar.listTeamsThin userId scope, v.MemberOf userId scope team.id conv.id := by
  obtain ⟨hconv, hindependent⟩ := List.mem_filter.mp h
  rintro ⟨team, hteam, other, hother, hid, hteamId⟩
  obtain rfl : other = conv :=
    List.inj_on_of_nodup_map listConversationsThin_ids_nodup hother hconv hid
  refine absurd hindependent ?_
  simp only [isMember, hteamId, Option.any_some, Bool.not_eq_true', Bool.not_eq_false]
  exact List.any_eq_true.mpr ⟨team, hteam, by simp⟩

theorem ref_of_shownUnit (h : v.shownUnit userId scope item = some shownItem) :
    shownItem.ref = item.ref := by
  cases item with
  | conv id updatedAt =>
      simp only [shownUnit] at h
      split at h
      · rw [← Option.some.inj h]
        rfl
      · cases h
  | team teamId updatedAt =>
      obtain ⟨agg, hfind, rfl⟩ := Option.map_eq_some_iff.mp h
      have hid : agg.teamId = teamId := by simpa using List.find?_some hfind
      rw [← hid]
      rfl

theorem ref_of_shownPin {row : UserOrderRow} (h : v.shownPin userId row = some shownItem) :
    shownItem.ref = row.item := by
  obtain ⟨_, _, ⟨itemType, itemId⟩, _⟩ := row
  cases itemType with
  | conversation =>
      simp only [shownPin] at h
      split at h
      · rw [← Option.some.inj h]
        rfl
      · cases h
  | team =>
      obtain ⟨agg, hfind, rfl⟩ := Option.map_eq_some_iff.mp h
      have hid : agg.teamId = itemId := by simpa using List.find?_some hfind
      rw [← hid]
      rfl

end Teams

section Places

variable {u : SidebarUnit} {ref : OrderItemRef}

theorem shown_natural (key : GroupKey) :
    v.shown userId scope key.token =
      (v.groupUnits userId scope key).filterMap (v.shownUnit userId scope) := by
  simp only [shown, ScopeToken.key_token]

theorem pinned_iff (hu : u ∈ v.units userId scope) :
    u.pinned = true ↔ u.item.ref ∈ v.pinnedSet userId scope := by
  obtain hteam | hconv := List.mem_append.mp hu
  · obtain ⟨team, -, hteam⟩ := List.mem_filterMap.mp hteam
    obtain ⟨agg, -, rfl⟩ := Option.map_eq_some_iff.mp hteam
    exact decide_eq_true_iff
  · obtain ⟨conv, -, rfl⟩ := List.mem_map.mp hconv
    exact decide_eq_true_iff

theorem mem_pinnedSet_active :
    ref ∈ v.pinnedSet userId .active ↔
      ∃ row ∈ v.userOrder.ordered userId .pinned, row.item = ref := by
  simp only [pinnedSet, UserOrder.pinnedRefs, List.mem_map, UserOrder.ordered_perm.mem_iff,
    UserOrder.sceneRows]

theorem converts_of_listed {conv : SidebarConversationThin} {row : ConversationRow}
    (hconv : conv ∈ v.sidebar.listConversationsThin userId scope)
    (hlookup : v.sidebar.conversations.lookup conv.id = some row) (hrow : row.convertible = true) :
    v.converts userId scope conv.id = true := by
  obtain ⟨⟨id, row'⟩, hentry, h⟩ := List.mem_filterMap.mp hconv
  simp only at h
  split at h
  · next hlisted =>
      obtain rfl := Option.some.inj h
      have hrow' : v.sidebar.conversations.lookup id = some row' := Table.mem_entries_iff.mp hentry
      rw [hlookup] at hrow'
      obtain rfl := Option.some.inj hrow'
      rw [converts, hlookup]
      exact decide_eq_true ⟨hlisted.1, hlisted.2.1, hlisted.2.2, hrow⟩
  · cases h

theorem unit_of_listed (h : v.Listed userId scope ref) :
    ∃ u ∈ v.units userId scope, u.item.ref = ref ∧
      ∃ item, v.shownUnit userId scope u.item = some item := by
  obtain ⟨itemType, itemId⟩ := ref
  cases itemType with
  | team =>
      obtain ⟨team, hteam, rfl⟩ := h
      obtain ⟨agg, hfind, -⟩ := find_aggregate hteam
      obtain ⟨u, hu, hitem⟩ : ∃ u ∈ v.units userId scope, u.item = .team team.id agg.updatedAt := by
        let u : SidebarUnit :=
          { key := classifyUnit v.canonical (v.sidebar.listUserProjects userId) team.projectId
              team.workspace
            pinned := ⟨.team, team.id⟩ ∈ v.pinnedSet userId scope
            item := .team team.id agg.updatedAt }
        have hunit : u ∈ v.teamUnits userId scope :=
          List.mem_filterMap.mpr ⟨team, hteam, by rw [hfind, Option.map_some]⟩
        exact ⟨u, List.mem_append_left _ hunit, rfl⟩
      refine ⟨u, hu, by rw [hitem]; rfl, .team agg false, ?_⟩
      simp only [hitem, shownUnit, hfind, Option.map_some]
  | conversation =>
      obtain ⟨conv, hconv, rfl, row, hlookup, hrow⟩ := h
      refine ⟨_, List.mem_append_right _ (List.mem_map_of_mem hconv), rfl,
        .conversation conv.id false, ?_⟩
      have hconverts := converts_of_listed (List.mem_of_mem_filter hconv) hlookup hrow
      simp only [shownUnit, hconverts, if_true]

theorem natural_placed (h : v.Listed userId scope ref) (hpin : ref ∉ v.pinnedSet userId scope) :
    ∃ u ∈ v.units userId scope,
      ref ∈ (v.shown userId scope u.key.token).map SidebarItem.ref := by
  obtain ⟨u, hu, rfl, item, hitem⟩ := unit_of_listed h
  have hfree : u.pinned = false := by
    rw [← pinned_iff hu] at hpin
    simpa using hpin
  refine ⟨u, hu, List.mem_map.mpr ⟨item, ?_, ref_of_shownUnit hitem⟩⟩
  rw [shown_natural]
  exact List.mem_filterMap.mpr ⟨u.item, mem_groupUnits.mpr ⟨u, hu, ⟨rfl, hfree⟩, rfl⟩, hitem⟩

theorem pinned_placed (h : v.Listed userId scope ref) (hpin : ref ∈ v.pinnedSet userId scope) :
    ref ∈ (v.shown userId scope .pinned).map SidebarItem.ref := by
  cases scope with
  | archived => cases hpin
  | active =>
      obtain ⟨row, hrow, rfl⟩ := mem_pinnedSet_active.mp hpin
      have hshown : ∃ item, v.shownPin userId row = some item := by
        obtain ⟨_, _, ⟨itemType, itemId⟩, _⟩ := row
        cases itemType with
        | team =>
            obtain ⟨team, hteam, rfl⟩ := h
            obtain ⟨agg, hfind, -⟩ := find_aggregate hteam
            exact ⟨.team agg true, by simp only [shownPin, hfind, Option.map_some]⟩
        | conversation =>
            obtain ⟨conv, hconv, rfl, row, hlookup, hrow⟩ := h
            have hconverts := converts_of_listed (List.mem_of_mem_filter hconv) hlookup hrow
            have hfree : conv.id ∉ (v.aggregates userId .active).1.flatMap TeamAgg.memberIds :=
              fun hmember ↦ not_member_of_independent hconv (mem_all_memberIds.mp hmember)
            exact ⟨.conversation conv.id true, if_pos ⟨hfree, hconverts⟩⟩
      obtain ⟨item, hitem⟩ := hshown
      exact List.mem_map.mpr ⟨item, List.mem_filterMap.mpr ⟨row, hrow, hitem⟩, ref_of_shownPin hitem⟩

theorem origin_of_shown {item : SidebarItem} (h : item ∈ v.shown userId scope token) :
    (∃ u ∈ v.units userId scope, u.key.token = token ∧ u.pinned = false ∧
      v.shownUnit userId scope u.item = some item) ∨
    (token = .pinned ∧ scope = .active ∧ ∃ row ∈ v.userOrder.ordered userId .pinned,
      v.shownPin userId row = some item) := by
  unfold shown at h
  cases hkey : token.key with
  | some key =>
      simp only [hkey] at h
      obtain ⟨unitItem, hunit, hitem⟩ := List.mem_filterMap.mp h
      obtain ⟨u, hu, ⟨rfl, hfree⟩, rfl⟩ := mem_groupUnits.mp hunit
      exact Or.inl ⟨u, hu, ScopeToken.token_of_key hkey, hfree, hitem⟩
  | none =>
      obtain rfl := ScopeToken.eq_pinned hkey
      cases scope with
      | archived => cases h
      | active =>
          obtain ⟨row, hrow, hitem⟩ := List.mem_filterMap.mp h
          exact Or.inr ⟨rfl, rfl, row, hrow, hitem⟩

theorem shown_once (token : ScopeToken) :
    ((v.shown userId scope token).map SidebarItem.ref).Nodup := by
  unfold shown
  cases token.key with
  | some key =>
      exact (groupUnits_refs_nodup v userId scope key).sublist
        (map_filterMap_sublist (fun _ _ h ↦ ref_of_shownUnit h) _)
  | none =>
      cases scope with
      | archived => exact List.nodup_nil
      | active =>
          exact UserOrder.items_nodup.sublist
            (map_filterMap_sublist (fun _ _ h ↦ ref_of_shownPin h) _)

theorem shown_disjoint (hne : token ≠ token') {item item' : SidebarItem}
    (h : item ∈ v.shown userId scope token) (h' : item' ∈ v.shown userId scope token') :
    item.ref ≠ item'.ref := by
  intro href
  obtain ⟨u, hu, rfl, hfree, hitem⟩ | ⟨rfl, rfl, row, hrow, hitem⟩ := origin_of_shown h
  · obtain ⟨u', hu', rfl, hfree', hitem'⟩ | ⟨rfl, rfl, row', hrow', hitem'⟩ := origin_of_shown h'
    · rw [ref_of_shownUnit hitem, ref_of_shownUnit hitem'] at href
      have hsame : u = u' := List.inj_on_of_nodup_map units_refs_nodup hu hu' href
      exact hne (by rw [hsame])
    · rw [ref_of_shownUnit hitem, ref_of_shownPin hitem'] at href
      have hpin := (pinned_iff hu).mpr (mem_pinnedSet_active.mpr ⟨row', hrow', href.symm⟩)
      rw [hfree] at hpin
      cases hpin
  · obtain ⟨u', hu', -, hfree', hitem'⟩ | ⟨rfl, -, -⟩ := origin_of_shown h'
    · rw [ref_of_shownPin hitem, ref_of_shownUnit hitem'] at href
      have hpin := (pinned_iff hu').mpr (mem_pinnedSet_active.mpr ⟨row, hrow, href⟩)
      rw [hfree'] at hpin
      cases hpin
    · exact hne rfl

end Places

section Reads

variable {first : Option ℤ} {win : List (String × ℤ)} {ids : List String}
  {requests : List (Limit × (GroupKey → ℕ))}

/-- The requests of a client as the service gets them. -/
def plain (requests : List (Limit × (GroupKey → ℕ))) : List (ℤ × (GroupKey → ℕ)) :=
  requests.map fun request ↦ (request.1.1, request.2)

theorem plain_limits : ∀ request ∈ plain requests, 1 ≤ request.1 ∧ request.1 ≤ maxLimit := by
  intro request hrequest
  obtain ⟨named, -, rfl⟩ := List.mem_map.mp hrequest
  exact named.1.2

theorem plain_sizes : ∀ n ∈ (plain requests).map (·.1.toNat), 0 < n := by
  intro n hn
  obtain ⟨request, hrequest, rfl⟩ := List.mem_map.mp hn
  have hpositive := (plain_limits request hrequest).1
  omega

theorem readsTo_natural (hkey : key ≠ .project "")
    (hgroup : ∀ rank, (v.classify userId scope rank).group key.token =
      some ⟨key.token, v.groupUnits userId scope key⟩)
    (hwindow : 1 ≤ windowOf first win (key.token.toToken v.wire))
    (hids : (((v.groupUnits userId scope key).take
      (windowOf first win (key.token.toToken v.wire)).toNat).filterMap GroupItemRef.convId?) ⊆ ids) :
    v.ReadsTo userId scope
      (v.firstWindow first win (v.aggregates userId scope).1 (v.hydrate userId scope ids)
        ⟨key.token, v.groupUnits userId scope key⟩)
      (v.shown userId scope key.token) := by
  rw [firstWindow_eq rfl hids, shown_natural]
  dsimp only
  generalize hsize : (windowOf first win (key.token.toToken v.wire)).toNat = size
  refine ⟨((v.groupUnits userId scope key).drop size).length, fun requests hlength ↦ ?_⟩
  have hlen : ((v.groupUnits userId scope key).drop size).length ≤
      ((plain requests).map (·.1.toNat)).length := by
    rwa [plain, List.length_map, List.length_map]
  have hsize : 0 < size := by omega
  have hread : readFrom GroupItemRef.position (v.groupUnits userId scope key)
      ((plain requests).map (·.1.toNat)) (nextCursor size (v.groupUnits userId scope key)) =
        ((v.groupUnits userId scope key).drop size, none) :=
    groupUnits_ranked.read_all none hsize plain_sizes hlen
  refine ⟨((v.groupUnits userId scope key).drop size).filterMap (v.shownUnit userId scope), ?_, ?_⟩
  · exact (follow_natural hkey hgroup plain_limits).trans (by rw [hread]; rfl)
  · rw [← List.filterMap_append, List.take_append_drop]

theorem readsTo_pinned {limit : ℤ} (hlimit : 1 ≤ limit) {group : SidebarGroup R}
    (hgroup : group = (let page := v.pagePinned userId none limit (v.aggregates userId .active).1
      ⟨.pinned, page.items, page.hasMore, page.nextCursor⟩)) :
    v.ReadsTo userId .active group (v.shown userId .active .pinned) := by
  have hpage := pagePinned_eq v userId none hlimit
  rw [Option.map_none] at hpage
  dsimp only at hgroup hpage
  rw [hpage] at hgroup
  subst hgroup
  dsimp only [behindCursor]
  generalize hsize : limit.toNat = size
  refine ⟨((v.userOrder.ordered userId .pinned).drop size).length, fun requests hlength ↦ ?_⟩
  have hlen : ((v.userOrder.ordered userId .pinned).drop size).length ≤
      ((plain requests).map (·.1.toNat)).length := by
    rwa [plain, List.length_map, List.length_map]
  have hsize : 0 < size := by omega
  have hread : readFrom UserOrderRow.position (v.userOrder.ordered userId .pinned)
      ((plain requests).map (·.1.toNat)) (nextCursor size (v.userOrder.ordered userId .pinned)) =
        ((v.userOrder.ordered userId .pinned).drop size, none) :=
    (UserOrder.ordered_ranked _ _ _).read_all none hsize plain_sizes hlen
  refine ⟨((v.userOrder.ordered userId .pinned).drop size).filterMap (v.shownPin userId), ?_, ?_⟩
  · exact (follow_pinned plain_limits).trans (by rw [hread]; rfl)
  · rw [← List.filterMap_append, List.take_append_drop]
    rfl

end Reads

section Members

variable {item : SidebarItem}

theorem mem_units_conv {u : SidebarUnit} {id : String} {updatedAt : ℤ}
    (hu : u ∈ v.units userId scope) (hitem : u.item = .conv id updatedAt) :
    ∃ conv ∈ (v.aggregates userId scope).2, conv.id = id := by
  obtain hteam | hconv := List.mem_append.mp hu
  · have htype := item_of_mem_teamUnits hteam
    rw [hitem] at htype
    cases htype
  · obtain ⟨conv, hmem, rfl⟩ := List.mem_map.mp hconv
    exact ⟨conv, hmem, (GroupItemRef.conv.inj hitem).1⟩

theorem membersInside_of_shown (h : item ∈ v.shown userId scope token) :
    v.MembersInside userId scope item := by
  obtain ⟨u, hu, -, -, hitem⟩ | ⟨-, rfl, row, -, hitem⟩ := origin_of_shown h
  · cases hunit : u.item with
    | conv id updatedAt =>
        rw [hunit] at hitem
        obtain ⟨conv, hconv, rfl⟩ := mem_units_conv hu hunit
        simp only [shownUnit] at hitem
        split at hitem
        · obtain rfl := Option.some.inj hitem
          exact fun team hteam hmember ↦ not_member_of_independent hconv ⟨team, hteam, hmember⟩
        · cases hitem
    | team teamId updatedAt =>
        rw [hunit] at hitem
        obtain ⟨agg, hfind, rfl⟩ := Option.map_eq_some_iff.mp hitem
        exact fun id ↦ mem_memberIds (List.mem_of_find?_eq_some hfind)
  · unfold shownPin at hitem
    cases htype : row.item.itemType with
    | conversation =>
        simp only [htype] at hitem
        split at hitem
        · next hfree =>
            obtain rfl := Option.some.inj hitem
            exact fun team hteam hmember ↦ hfree.1 (mem_all_memberIds.mpr ⟨team, hteam, hmember⟩)
        · cases hitem
    | team =>
        simp only [htype] at hitem
        obtain ⟨agg, hfind, rfl⟩ := Option.map_eq_some_iff.mp hitem
        exact fun id ↦ mem_memberIds (List.mem_of_find?_eq_some hfind)

end Members

section Unconvertible

-- a user with one conversation, whose row does not convert to a response

def plainWire : WireFormat CursorPayload CursorPayload where
  dirKey := id
  dirCanonical := some
  dirCanonical_dirKey _ := rfl
  base64 := id
  unbase64 := some
  unbase64_base64 _ := rfl
  toJson := id
  fromJson := some
  fromJson_toJson _ := rfl

def oddRow : ConversationRow where
  userId := "user"
  projectId := none
  extra := ⟨none, none, none, false⟩
  convertible := false
  archivedAt := none
  updatedAt := 1
  createdAt := 1

def oddSidebar : SidebarService CursorPayload CursorPayload where
  sidebar := ⟨(∅ : Table String ConversationRow).insert "odd" oddRow, ∅, ∅⟩
  userOrder := .empty
  canonical := some
  wire := plainWire
  projectIds := AList.notMem_empty ""

end Unconvertible

end SidebarService

end Zaowutai.Sidebar
