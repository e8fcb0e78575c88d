import Zaowutai.Sidebar.SidebarService

/-!
# What the groups hold

The accumulator of a key collects the units of that key that are not pinned.
The project area comes in the same order whatever order the map has, since no
two groups have the same token.
-/

namespace Zaowutai.Sidebar

open Zaowutai.Lib Zaowutai.Order

theorem GroupKey.token_injective : Function.Injective GroupKey.token := by
  intro a b h
  cases a <;> cases b <;> cases h <;> rfl

namespace GroupBuilder

variable {projects : List SidebarProjectMeta} {map : GroupBuilder} {u : SidebarUnit}
  {units : List SidebarUnit} {key : GroupKey}

def itemsAt (map : GroupBuilder) (key : GroupKey) : List GroupItemRef :=
  ((map.lookup key).map GroupAccum.items).getD []

def Tagged (map : GroupBuilder) : Prop :=
  ∀ key accum, map.lookup key = some accum → accum.token = key.token

def listed (key : GroupKey) (units : List SidebarUnit) : List GroupItemRef :=
  (units.filter fun u ↦ u.key = key ∧ u.pinned = false).map SidebarUnit.item

theorem itemsAt_push :
    itemsAt (push projects map u) key = itemsAt map key ++ listed key [u] := by
  by_cases hkey : key = u.key
  · subst hkey
    cases hpinned : u.pinned <;> cases hlookup : map.lookup u.key <;>
      simp [itemsAt, push, listed, hpinned, hlookup, GroupAccum.new]
  · have hlisted : listed key [u] = [] := by simp [listed, Ne.symm hkey]
    simp only [itemsAt, push, Table.lookup_insert_eq, if_neg hkey, hlisted, List.append_nil]

theorem itemsAt_foldl :
    itemsAt (units.foldl (push projects) map) key = itemsAt map key ++ listed key units := by
  induction units generalizing map with
  | nil => exact (List.append_nil _).symm
  | cons u units ih =>
      have hlisted : listed key (u :: units) = listed key [u] ++ listed key units := by
        simp only [listed, ← List.map_append, ← List.filter_append, List.singleton_append]
      rw [List.foldl_cons, ih, itemsAt_push, hlisted, List.append_assoc]

theorem mem_push : key ∈ push projects map u ↔ key = u.key ∨ key ∈ map :=
  AList.mem_insert map

theorem mem_foldl :
    key ∈ units.foldl (push projects) map ↔ key ∈ map ∨ ∃ u ∈ units, u.key = key := by
  induction units generalizing map with
  | nil => simp
  | cons u units ih =>
      rw [List.foldl_cons, ih, mem_push, List.exists_mem_cons_iff]
      tauto

theorem tagged_push (h : Tagged map) : Tagged (push projects map u) := by
  intro key accum hlookup
  rw [push, Table.lookup_insert_eq] at hlookup
  split at hlookup
  · next hkey =>
      have htoken : ((map.lookup u.key).getD (GroupAccum.new u.key projects)).token = u.key.token := by
        cases hold : map.lookup u.key with
        | none => rfl
        | some old => exact h u.key old hold
      obtain rfl := Option.some.inj hlookup
      rw [hkey]
      split <;> exact htoken
  · exact h key accum hlookup

theorem tagged_foldl (h : Tagged map) : Tagged (units.foldl (push projects) map) := by
  induction units generalizing map with
  | nil => exact h
  | cons u units ih => exact ih (tagged_push h)

theorem tagged_spine (h : Tagged map) (ps : List SidebarProjectMeta) :
    Tagged (ps.foldl ensureStandardSpine map) := by
  induction ps generalizing map with
  | nil => exact h
  | cons p ps ih =>
      refine ih ?_
      intro key accum hlookup
      simp only [ensureStandardSpine] at hlookup
      split at hlookup
      · exact h key accum hlookup
      · rw [Table.lookup_insert_eq] at hlookup
        split at hlookup
        · next hkey =>
            obtain rfl := Option.some.inj hlookup
            rw [hkey]
        · exact h key accum hlookup

theorem itemsAt_spine (ps : List SidebarProjectMeta) :
    itemsAt (ps.foldl ensureStandardSpine map) key = itemsAt map key := by
  induction ps generalizing map with
  | nil => rfl
  | cons p ps ih =>
      rw [List.foldl_cons, ih]
      simp only [ensureStandardSpine]
      split
      · rfl
      · next hnew =>
          rw [itemsAt, Table.lookup_insert_eq]
          split
          · next hkey =>
              rw [← hkey] at hnew
              simp [itemsAt, AList.lookup_eq_none.mpr hnew]
          · rfl

theorem mem_spine (ps : List SidebarProjectMeta) :
    key ∈ ps.foldl ensureStandardSpine map ↔ key ∈ map ∨ ∃ p ∈ ps, .project p.projectId = key := by
  induction ps generalizing map with
  | nil => simp
  | cons p ps ih =>
      have hstep : key ∈ ensureStandardSpine map p ↔ key ∈ map ∨ .project p.projectId = key := by
        simp only [ensureStandardSpine]
        split
        · next hmem => exact ⟨Or.inl, fun h ↦ h.elim id fun heq ↦ heq ▸ hmem⟩
        · rw [AList.mem_insert, or_comm, eq_comm]
      rw [List.foldl_cons, ih, hstep, List.exists_mem_cons_iff, or_assoc]

section Area

variable {R J : Type} {wire : WireFormat R J} {rank rank' : GroupKey → ℕ} {accum : GroupAccum}

def areaEntries (map : GroupBuilder) : List GroupAccum :=
  (map.entries.filter (·.1 ≠ .chats)).map Sigma.snd

theorem area_perm :
    (map.area (ScopeToken.toToken wire) rank).Perm map.areaEntries := by
  have hentries : (map.reorder rank).entries.Perm map.entries := List.perm_insertionSort _ _
  exact (List.perm_insertionSort _ _).trans ((hentries.filter _).map _)

theorem mem_area (h : accum ∈ map.area (ScopeToken.toToken wire) rank) :
    ∃ key, key ≠ .chats ∧ map.lookup key = some accum := by
  obtain ⟨⟨key, found⟩, hentry, rfl⟩ := List.mem_map.mp (area_perm.subset h)
  obtain ⟨hmem, hkey⟩ := List.mem_filter.mp hentry
  exact ⟨key, by simpa using hkey, Table.mem_entries_iff.mp hmem⟩

theorem mem_area_of_lookup (hkey : key ≠ .chats) (h : map.lookup key = some accum) :
    accum ∈ map.area (ScopeToken.toToken wire) rank := by
  refine area_perm.symm.subset (List.mem_map.mpr ⟨⟨key, accum⟩, ?_, rfl⟩)
  exact List.mem_filter.mpr ⟨Table.mem_entries_iff.mpr h, by simpa using hkey⟩

theorem areaEntries_tokens_nodup (h : map.Tagged) :
    (map.areaEntries.map GroupAccum.token).Nodup := by
  have hkeys : ((map.entries.filter (·.1 ≠ .chats)).map Sigma.fst).Nodup :=
    List.Nodup.sublist (List.filter_sublist.map _) map.nodupKeys
  have htokens : map.areaEntries.map GroupAccum.token =
      ((map.entries.filter (·.1 ≠ .chats)).map Sigma.fst).map GroupKey.token := by
    rw [areaEntries, List.map_map, List.map_map]
    refine List.map_congr_left fun entry hentry ↦ ?_
    exact h entry.1 entry.2 (Table.mem_entries_iff.mp (List.mem_of_mem_filter hentry))
  rw [htokens]
  exact hkeys.map GroupKey.token_injective

theorem area_tokens_nodup (wire : WireFormat R J) (rank : GroupKey → ℕ) (h : map.Tagged) :
    ((map.area (ScopeToken.toToken wire) rank).map GroupAccum.token).Nodup :=
  (area_perm.map _).nodup_iff.mpr (areaEntries_tokens_nodup h)

theorem token_eq_of_position_eq {a b : GroupAccum}
    (h : a.position (ScopeToken.toToken wire) = b.position (ScopeToken.toToken wire)) :
    a.token = b.token := by
  have htext := congrArg (fun p ↦ OrderDual.ofDual (ofLex (ofLex p).2).2) h
  exact toToken_injective wire htext

theorem area_ranked (wire : WireFormat R J) (rank : GroupKey → ℕ) (h : map.Tagged) :
    Ranked (GroupAccum.position (ScopeToken.toToken wire))
      (map.area (ScopeToken.toToken wire) rank) := by
  have hsorted := List.pairwise_insertionSort
    (fun a b : GroupAccum ↦
      a.position (ScopeToken.toToken wire) ≤ b.position (ScopeToken.toToken wire))
    (((map.reorder rank).entries.filter (·.1 ≠ .chats)).map Sigma.snd)
  have htokens := List.pairwise_map.mp (area_tokens_nodup wire rank h)
  exact (hsorted.and htokens).imp fun hab ↦
    lt_of_le_of_ne hab.1 fun heq ↦ hab.2 (token_eq_of_position_eq heq)

theorem area_rank (wire : WireFormat R J) (rank rank' : GroupKey → ℕ) (h : map.Tagged) :
    map.area (ScopeToken.toToken wire) rank = map.area (ScopeToken.toToken wire) rank' := by
  refine (area_ranked wire rank' h).insertionSort_eq
    (fun a b hlt ↦ not_le.mpr hlt) ?_
  have hentries : (map.reorder rank).entries.Perm map.entries := List.perm_insertionSort _ _
  exact ((hentries.filter _).map _).trans area_perm.symm

end Area

end GroupBuilder

section Classify

variable {projects : List SidebarProjectMeta} {canonical : String → Option String}
  {projectId workspace : Option String} {id : String}

theorem classifyUnit_project (h : classifyUnit canonical projects projectId workspace = .project id) :
    ∃ p ∈ projects, p.projectId = id := by
  unfold classifyUnit at h
  split at h
  · next p hfind =>
      obtain ⟨wanted, -, hp⟩ := Option.bind_eq_some_iff.mp hfind
      split at h
      · exact ⟨p, List.mem_of_find?_eq_some hp, GroupKey.project.inj h⟩
      · cases h
  · split at h
    · cases h
    · split at h
      · next p hlast =>
          exact ⟨p, List.mem_of_mem_filter (List.mem_of_getLast? hlast), GroupKey.project.inj h⟩
      · cases h

end Classify

namespace SidebarService

variable {R J : Type} {v : SidebarService R J} {userId : String} {scope : ArchiveScope}
  {rank rank' : GroupKey → ℕ} {u : SidebarUnit} {key : GroupKey} {group : NaturalGroup}

def groupUnits (v : SidebarService R J) (userId : String) (scope : ArchiveScope) (key : GroupKey) :
    List GroupItemRef :=
  (GroupBuilder.listed key (v.units userId scope)).insertionSort fun a b ↦ a.position ≤ b.position

theorem builder_tagged (v : SidebarService R J) (userId : String) (scope : ArchiveScope) :
    (v.builder userId scope).Tagged :=
  GroupBuilder.tagged_spine (GroupBuilder.tagged_foldl fun _ _ h ↦ by cases h) _

theorem itemsAt_builder :
    GroupBuilder.itemsAt (v.builder userId scope) key =
      GroupBuilder.listed key (v.units userId scope) := by
  unfold builder
  rw [GroupBuilder.itemsAt_spine, GroupBuilder.itemsAt_foldl]
  rfl

theorem mem_builder_of_unit (hu : u ∈ v.units userId scope) : u.key ∈ v.builder userId scope :=
  (GroupBuilder.mem_spine _).mpr (Or.inl (GroupBuilder.mem_foldl.mpr (Or.inr ⟨u, hu, rfl⟩)))

theorem intoGroup_eq {accum : GroupAccum} (h : (v.builder userId scope).lookup key = some accum) :
    accum.intoGroup = ⟨key.token, v.groupUnits userId scope key⟩ := by
  have hitems : accum.items = GroupBuilder.listed key (v.units userId scope) := by
    rw [← itemsAt_builder, GroupBuilder.itemsAt, h]
    rfl
  rw [GroupAccum.intoGroup, groupUnits, hitems, builder_tagged v userId scope key accum h]

theorem chats_eq :
    (v.classify userId scope rank).chats = ⟨.chats, v.groupUnits userId scope .chats⟩ := by
  change (((v.builder userId scope).lookup .chats).getD ⟨[], none, 0, .chats⟩).intoGroup = _
  cases hlookup : (v.builder userId scope).lookup .chats with
  | some accum => exact intoGroup_eq hlookup
  | none =>
      have hnone : GroupBuilder.listed .chats (v.units userId scope) = [] := by
        rw [← itemsAt_builder, GroupBuilder.itemsAt, hlookup]
        rfl
      rw [groupUnits, hnone]
      rfl

theorem mem_projectArea (h : group ∈ (v.classify userId scope rank).projectArea) :
    ∃ key ∈ v.builder userId scope, key ≠ .chats ∧
      group = ⟨key.token, v.groupUnits userId scope key⟩ := by
  obtain ⟨accum, haccum, rfl⟩ := List.mem_map.mp h
  obtain ⟨key, hkey, hlookup⟩ := GroupBuilder.mem_area (List.mem_of_mem_take haccum)
  exact ⟨key, AList.lookup_isSome.mp (by simp [hlookup]), hkey, intoGroup_eq hlookup⟩

theorem listed_or_more (rank : GroupKey → ℕ) (hu : u ∈ v.units userId scope)
    (hkey : u.key ≠ .chats) :
    (∃ group ∈ (v.classify userId scope rank).projectArea, group.token = u.key.token) ∨
      (v.classify userId scope rank).hasMoreGroups = true := by
  obtain ⟨accum, hlookup⟩ :=
    Option.isSome_iff_exists.mp (AList.lookup_isSome.mpr (mem_builder_of_unit hu))
  have hmem : accum ∈ (v.builder userId scope).area (ScopeToken.toToken v.wire) rank :=
    GroupBuilder.mem_area_of_lookup hkey hlookup
  by_cases hmore : maxProjectGroups <
      ((v.builder userId scope).area (ScopeToken.toToken v.wire) rank).length
  · exact Or.inr (decide_eq_true hmore)
  · rw [← List.take_of_length_le (not_lt.mp hmore)] at hmem
    exact Or.inl ⟨accum.intoGroup, List.mem_map_of_mem hmem, builder_tagged v userId scope _ _ hlookup⟩

theorem classify_rank (rank rank' : GroupKey → ℕ) :
    v.classify userId scope rank = v.classify userId scope rank' := by
  have harea := GroupBuilder.area_rank v.wire rank rank' (builder_tagged v userId scope)
  unfold classify GroupBuilder.finish
  rw [harea]

theorem key_ne_empty (h : key ∈ v.builder userId scope) : key ≠ .project "" := by
  rintro rfl
  have hlisted : ∀ p ∈ v.sidebar.listUserProjects userId, p.projectId ≠ "" := by
    rintro p hp hempty
    obtain ⟨⟨id, row⟩, hentry, hrow⟩ := List.mem_filterMap.mp hp
    simp only at hrow
    split at hrow
    · obtain rfl := Option.some.inj hrow
      refine v.projectIds ?_
      rw [← hempty]
      exact AList.mem_keys.mpr (List.mem_map_of_mem hentry)
    · cases hrow
  have hclassified : ∀ projectId workspace, classifyUnit v.canonical
      (v.sidebar.listUserProjects userId) projectId workspace ≠ .project "" := by
    intro projectId workspace hkey
    obtain ⟨p, hp, hempty⟩ := classifyUnit_project hkey
    exact hlisted p hp hempty
  obtain hunit | ⟨p, hp, hkey⟩ := (GroupBuilder.mem_spine _).mp h
  · obtain hnone | ⟨u, hu, hkey⟩ := GroupBuilder.mem_foldl.mp hunit
    · cases hnone
    · obtain hteam | hconv := List.mem_append.mp hu
      · obtain ⟨team, -, hteam⟩ := List.mem_filterMap.mp hteam
        obtain ⟨agg, -, rfl⟩ := Option.map_eq_some_iff.mp hteam
        exact hclassified _ _ hkey
      · obtain ⟨conv, -, rfl⟩ := List.mem_map.mp hconv
        exact hclassified _ _ hkey
  · refine hlisted p ?_ (GroupKey.project.inj hkey)
    cases scope with
    | active => exact List.mem_of_mem_filter hp
    | archived => cases hp

end SidebarService

end Zaowutai.Sidebar
