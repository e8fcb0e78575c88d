import Zaowutai.Order.PinnedList
import Zaowutai.Sidebar.GroupContents

/-!
# The windows of a group

Both kinds of groups are lists ranked by a position, and a window is what lies
behind the position of the cursor, so the windows that a client follows are those
of a keyset reader over the list.  A row that does not show is skipped after the
window is cut.
-/

namespace Zaowutai.Sidebar

open Zaowutai.Lib Zaowutai.Order

namespace GroupItemRef

variable {item other : GroupItemRef}

theorem typeOrdOf_asStr (item : GroupItemRef) : typeOrdOf item.itemType.asStr = item.typeOrd := by
  cases item <;> rfl

theorem position_lt_iff : item.position < other.position ↔
    other.updatedAt < item.updatedAt ∨ other.updatedAt = item.updatedAt ∧
      (item.typeOrd < other.typeOrd ∨ item.typeOrd = other.typeOrd ∧ item.itemId < other.itemId) := by
  rw [position, position, Prod.Lex.toLex_lt_toLex, Prod.Lex.toLex_lt_toLex, OrderDual.toDual_lt_toDual,
    OrderDual.toDual_inj, eq_comm]

theorem isAfter_activityCursor :
    item.isAfter (some other.activityCursor) = decide (other.position < item.position) := by
  simp only [isAfter, activityCursor, typeOrdOf_asStr, position_lt_iff, Bool.decide_or,
    Bool.decide_and, eq_comm (a := item.typeOrd)]

theorem ref_eq_of_position_eq (h : item.position = other.position) : item.ref = other.ref := by
  have hkey := congrArg (fun p ↦ ofLex (ofLex p).2) h
  have htype : item.typeOrd = other.typeOrd := congrArg Prod.fst hkey
  have hid : item.itemId = other.itemId := congrArg Prod.snd hkey
  cases item <;> cases other
  · exact congrArg (OrderItemRef.mk .conversation) hid
  · cases htype
  · cases htype
  · exact congrArg (OrderItemRef.mk .team) hid

end GroupItemRef

theorem map_filterMap_sublist {α β κ : Type*} {f : α → Option β} {key : α → κ} {key' : β → κ}
    (h : ∀ a b, f a = some b → key' b = key a) (l : List α) :
    ((l.filterMap f).map key').Sublist (l.map key) := by
  induction l with
  | nil => exact List.Sublist.refl []
  | cons a l ih =>
      cases hf : f a with
      | none =>
          rw [List.filterMap_cons_none hf]
          exact ih.trans (List.sublist_cons_self ..)
      | some b =>
          rw [List.filterMap_cons_some hf, List.map_cons, List.map_cons, h a b hf]
          exact ih.cons_cons _

namespace SidebarService

variable {R J : Type} {v : SidebarService R J} {userId : String} {scope : ArchiveScope}
  {key : GroupKey} {id : String} {ids : List String}

section Units

theorem listConversationsThin_ids_nodup :
    ((v.sidebar.listConversationsThin userId scope).map SidebarConversationThin.id).Nodup := by
  refine List.Nodup.sublist (map_filterMap_sublist ?_ _) v.sidebar.conversations.nodupKeys
  rintro ⟨id, row⟩ thin h
  simp only at h
  split at h
  · rw [← Option.some.inj h]
  · cases h

theorem listTeamsThin_ids_nodup (v : SidebarService R J) (userId : String)
    (scope : ArchiveScope) :
    ((v.sidebar.listTeamsThin userId scope).map SidebarTeamThin.id).Nodup := by
  refine List.Nodup.sublist (map_filterMap_sublist ?_ _) v.sidebar.teams.nodupKeys
  rintro ⟨id, row⟩ thin h
  simp only at h
  split at h
  · rw [← Option.some.inj h]
  · cases h

theorem teamUnits_refs_nodup :
    ((v.teamUnits userId scope).map (·.item.ref)).Nodup := by
  have hteams : ((v.sidebar.listTeamsThin userId scope).map
      fun team ↦ (⟨.team, team.id⟩ : OrderItemRef)).Nodup := by
    have hids := listTeamsThin_ids_nodup v userId scope
    have hmap := hids.map (f := OrderItemRef.mk .team) fun a b h ↦ (OrderItemRef.mk.inj h).2
    rwa [List.map_map] at hmap
  refine List.Nodup.sublist (map_filterMap_sublist ?_ _) hteams
  intro team u h
  obtain ⟨agg, -, rfl⟩ := Option.map_eq_some_iff.mp h
  rfl

theorem convUnits_refs_nodup :
    ((v.convUnits userId scope).map (·.item.ref)).Nodup := by
  have hids : ((v.aggregates userId scope).2.map SidebarConversationThin.id).Nodup :=
    listConversationsThin_ids_nodup.sublist (List.filter_sublist.map _)
  have hmap := hids.map (f := OrderItemRef.mk .conversation) fun a b h ↦ (OrderItemRef.mk.inj h).2
  rw [List.map_map] at hmap
  rw [convUnits, List.map_map]
  exact hmap

theorem item_of_mem_teamUnits {u : SidebarUnit} (h : u ∈ v.teamUnits userId scope) :
    u.item.itemType = .team := by
  obtain ⟨team, -, h⟩ := List.mem_filterMap.mp h
  obtain ⟨agg, -, rfl⟩ := Option.map_eq_some_iff.mp h
  rfl

theorem item_of_mem_convUnits {u : SidebarUnit} (h : u ∈ v.convUnits userId scope) :
    u.item.itemType = .conversation := by
  obtain ⟨conv, -, rfl⟩ := List.mem_map.mp h
  rfl

theorem units_refs_nodup : ((v.units userId scope).map (·.item.ref)).Nodup := by
  rw [units, List.map_append]
  refine List.nodup_append.mpr ⟨teamUnits_refs_nodup, convUnits_refs_nodup, ?_⟩
  intro a ha b hb hab
  obtain ⟨u, hu, rfl⟩ := List.mem_map.mp ha
  obtain ⟨u', hu', rfl⟩ := List.mem_map.mp hb
  have htype : u.item.itemType = u'.item.itemType := congrArg OrderItemRef.itemType hab
  rw [item_of_mem_teamUnits hu, item_of_mem_convUnits hu'] at htype
  cases htype

theorem mem_groupUnits {item : GroupItemRef} :
    item ∈ v.groupUnits userId scope key ↔
      ∃ u ∈ v.units userId scope, (u.key = key ∧ u.pinned = false) ∧ u.item = item := by
  simp only [groupUnits, List.mem_insertionSort, GroupBuilder.listed, List.mem_map, List.mem_filter,
    decide_eq_true_iff, and_assoc]

theorem groupUnits_refs_nodup (v : SidebarService R J) (userId : String) (scope : ArchiveScope)
    (key : GroupKey) :
    ((v.groupUnits userId scope key).map GroupItemRef.ref).Nodup := by
  have hperm := (List.perm_insertionSort
    (fun a b : GroupItemRef ↦ a.position ≤ b.position)
    (GroupBuilder.listed key (v.units userId scope))).map GroupItemRef.ref
  refine hperm.nodup_iff.mpr ?_
  rw [GroupBuilder.listed, List.map_map]
  exact units_refs_nodup.sublist (List.filter_sublist.map _)

theorem groupUnits_ranked : Ranked GroupItemRef.position (v.groupUnits userId scope key) := by
  have hsorted := List.pairwise_insertionSort (fun a b : GroupItemRef ↦ a.position ≤ b.position)
    (GroupBuilder.listed key (v.units userId scope))
  have hrefs := List.pairwise_map.mp (groupUnits_refs_nodup v userId scope key)
  exact (hsorted.and hrefs).imp fun hab ↦
    lt_of_le_of_ne hab.1 fun heq ↦ hab.2 (GroupItemRef.ref_eq_of_position_eq heq)

end Units

section Shown

def converts (v : SidebarService R J) (userId : String) (scope : ArchiveScope) (id : String) :
    Bool :=
  (v.sidebar.conversations.lookup id).any fun row ↦
    row.userId = userId ∧ scope.holds row.archivedAt ∧ !row.extra.isHealthCheck ∧ row.convertible

theorem mem_hydrate : id ∈ v.hydrate userId scope ids ↔
    id ∈ ids ∧ v.converts userId scope id = true := by
  simp only [hydrate, List.mem_filterMap, converts, Option.any_eq_true]
  constructor
  · rintro ⟨⟨id', row⟩, hentry, h⟩
    split at h
    · next hrow =>
        obtain rfl := Option.some.inj h
        obtain ⟨huser, hscope, hhealth, hids, hconv⟩ := hrow
        exact ⟨hids, row, Table.mem_entries_iff.mp hentry,
          decide_eq_true ⟨huser, hscope, hhealth, hconv⟩⟩
    · cases h
  · rintro ⟨hids, row, hlookup, hrow⟩
    obtain ⟨huser, hscope, hhealth, hconv⟩ := of_decide_eq_true hrow
    exact ⟨⟨id, row⟩, Table.mem_entries_iff.mpr hlookup,
      if_pos ⟨huser, hscope, hhealth, hids, hconv⟩⟩

def shownUnit (v : SidebarService R J) (userId : String) (scope : ArchiveScope) :
    GroupItemRef → Option SidebarItem
  | .conv id _ => if v.converts userId scope id then some (.conversation id false) else none
  | .team teamId _ =>
      ((v.aggregates userId scope).1.find? fun agg ↦ agg.teamId = teamId).map (.team · false)

def shownPin (v : SidebarService R J) (userId : String) (row : UserOrderRow) : Option SidebarItem :=
  match row.item.itemType with
  | .conversation =>
      if row.item.itemId ∉ (v.aggregates userId .active).1.flatMap TeamAgg.memberIds ∧
          v.converts userId .active row.item.itemId then
        some (.conversation row.item.itemId true)
      else none
  | .team =>
      ((v.aggregates userId .active).1.find? fun agg ↦ agg.teamId = row.item.itemId).map
        (.team · true)

theorem assembleItems_eq {window : List GroupItemRef}
    (h : window.filterMap GroupItemRef.convId? ⊆ ids) :
    assembleItems window (v.hydrate userId scope ids) (v.aggregates userId scope).1 false =
      window.filterMap (v.shownUnit userId scope) := by
  refine List.filterMap_congr fun item hitem ↦ ?_
  cases item with
  | conv id updatedAt =>
      have hid : id ∈ ids := h (List.mem_filterMap.mpr ⟨_, hitem, rfl⟩)
      have hiff : id ∈ v.hydrate userId scope ids ↔ v.converts userId scope id = true := by
        rw [mem_hydrate]
        exact and_iff_right hid
      simp only [shownUnit, hiff]
  | team teamId updatedAt => rfl

theorem pagePinned_items (v : SidebarService R J) (userId : String) (after : Option PinnedCursor)
    (limit : ℤ) :
    (v.pagePinned userId after limit (v.aggregates userId .active).1).items =
      ((v.userOrder.listPinned userId .pinned after (limit + 1).toNat).take
        limit.toNat).filterMap (v.shownPin userId) := by
  refine List.filterMap_congr fun row hrow ↦ ?_
  cases htype : row.item.itemType with
  | conversation =>
      have hiff : row.item.itemId ∈ v.hydrate userId .active
          (((((v.userOrder.listPinned userId .pinned after (limit + 1).toNat).take
            limit.toNat)).filter fun row ↦ row.item.itemType = .conversation ∧
              row.item.itemId ∉ (v.aggregates userId .active).1.flatMap TeamAgg.memberIds).map
                (·.item.itemId)) ↔
          row.item.itemId ∉ (v.aggregates userId .active).1.flatMap TeamAgg.memberIds ∧
            v.converts userId .active row.item.itemId = true := by
        rw [mem_hydrate]
        refine and_congr_left fun _ ↦ ⟨fun hmem ↦ ?_, fun hmember ↦ ?_⟩
        · obtain ⟨other, hother, hsame⟩ := List.mem_map.mp hmem
          rw [← hsame]
          exact (of_decide_eq_true (List.mem_filter.mp hother).2).2
        · exact List.mem_map.mpr
            ⟨row, List.mem_filter.mpr ⟨hrow, decide_eq_true ⟨htype, hmember⟩⟩, rfl⟩
      simp only [shownPin, htype, hiff]
  | team => simp only [shownPin, htype]

end Shown

section Windows

variable {last : Option GroupItemRef} {limit : ℤ} {rank : GroupKey → ℕ}

def unitCursor (v : SidebarService R J) (key : GroupKey) (item : GroupItemRef) : R :=
  item.activityCursor.encode v.wire key.token

def pinCursor (v : SidebarService R J) (row : UserOrderRow) : R :=
  (Cursor.pinned row.orderKey row.item.itemType.asStr row.item.itemId).encode v.wire .pinned

theorem filter_isAfter (l : List GroupItemRef) (last : Option GroupItemRef) :
    l.filter (·.isAfter (last.map GroupItemRef.activityCursor)) =
      behindCursor GroupItemRef.position l last := by
  cases last with
  | none => exact List.filter_eq_self.mpr fun _ _ ↦ rfl
  | some other => exact List.filter_congr fun item _ ↦ GroupItemRef.isAfter_activityCursor

theorem pageNatural_eq (v : SidebarService R J) (userId : String) (scope : ArchiveScope)
    (key : GroupKey) (last : Option GroupItemRef) (limit : ℤ) :
    v.pageNatural userId scope ⟨key.token, v.groupUnits userId scope key⟩
        (v.aggregates userId scope).1 (last.map GroupItemRef.activityCursor) limit =
      let found := behindCursor GroupItemRef.position (v.groupUnits userId scope key) last
      { items := (found.take limit.toNat).filterMap (v.shownUnit userId scope)
        hasMore := limit.toNat < found.length
        nextCursor := (nextCursor limit.toNat found).map (v.unitCursor key) } := by
  simp only [pageNatural, filter_isAfter, assembleItems_eq (List.Subset.refl _), nextCursor]
  split <;> rfl

theorem firstWindow_eq {aggs : List TeamAgg} (haggs : aggs = (v.aggregates userId scope).1)
    {win : List (String × ℤ)} {first : Option ℤ}
    (hids : (((v.groupUnits userId scope key).take
      (windowOf first win (key.token.toToken v.wire)).toNat).filterMap GroupItemRef.convId?) ⊆ ids) :
    v.firstWindow first win aggs (v.hydrate userId scope ids)
        ⟨key.token, v.groupUnits userId scope key⟩ =
      let size := (windowOf first win (key.token.toToken v.wire)).toNat
      { scope := key.token
        items := ((v.groupUnits userId scope key).take size).filterMap (v.shownUnit userId scope)
        hasMore := size < (v.groupUnits userId scope key).length
        nextCursor := (nextCursor size (v.groupUnits userId scope key)).map (v.unitCursor key) } := by
  subst haggs
  simp only [firstWindow, assembleItems_eq hids, nextCursor]
  split <;> rfl

theorem GroupKey.token_ne_pinned (key : GroupKey) : key.token ≠ .pinned := by
  cases key <;> intro h <;> cases h

theorem items_natural (item : GroupItemRef) (hkey : key ≠ .project "")
    (hgroup : (v.classify userId scope rank).group key.token =
      some ⟨key.token, v.groupUnits userId scope key⟩) (hlimit : 1 ≤ limit ∧ limit ≤ maxLimit) :
    v.items userId scope (key.token.toToken v.wire) (some (v.unitCursor key item)) (some limit)
        rank =
      let found := behindCursor GroupItemRef.position (v.groupUnits userId scope key) (some item)
      .ok
        { items := (found.take limit.toNat).filterMap (v.shownUnit userId scope)
          hasMore := limit.toNat < found.length
          nextCursor := (nextCursor limit.toNat found).map (v.unitCursor key) } := by
  have htoken : key.token ≠ .project "" := fun h ↦ hkey (GroupKey.token_injective h)
  have hdecode : Cursor.decode v.wire (v.unitCursor key item) key.token =
      .ok item.activityCursor :=
    decode_encode_activity v.wire (GroupKey.token_ne_pinned key) _ _ _
  have hvalid : validateLimit limit = .ok () := if_pos hlimit
  have hpage := pageNatural_eq v userId scope key (some item) limit
  rw [Option.map_some] at hpage
  simp only [← hpage]
  simp only [items, parse_toToken v.wire htoken, Option.getD_some, hvalid]
  cases key with
  | chats =>
      simp only [GroupKey.token] at hdecode hgroup ⊢
      simp only [hdecode, hgroup]
      rfl
  | project id =>
      simp only [GroupKey.token] at hdecode hgroup ⊢
      simp only [hdecode, hgroup]
      rfl
  | dir canonical =>
      simp only [GroupKey.token] at hdecode hgroup ⊢
      simp only [hdecode, hgroup]
      rfl

theorem follow_natural (hkey : key ≠ .project "")
    (hgroup : ∀ rank, (v.classify userId scope rank).group key.token =
      some ⟨key.token, v.groupUnits userId scope key⟩)
    {requests : List (ℤ × (GroupKey → ℕ))}
    (hlimits : ∀ request ∈ requests, 1 ≤ request.1 ∧ request.1 ≤ maxLimit) :
    v.follow userId scope (key.token.toToken v.wire) requests (last.map (v.unitCursor key)) =
      let found := readFrom GroupItemRef.position (v.groupUnits userId scope key)
        (requests.map (·.1.toNat)) last
      .ok (found.1.filterMap (v.shownUnit userId scope), found.2.map (v.unitCursor key)) := by
  induction requests generalizing last with
  | nil => cases last <;> rfl
  | cons request requests ih =>
      obtain ⟨hlimit, hlimits⟩ := List.forall_mem_cons.mp hlimits
      cases last with
      | none => rfl
      | some item =>
          have hitems := items_natural item hkey (hgroup request.2) hlimit
          rw [Option.map_some, follow, hitems]
          simp only [bind, Except.bind]
          rw [ih hlimits]
          simp only [List.map_cons, readFrom, List.filterMap_append]
          rfl

theorem pagePinned_eq (v : SidebarService R J) (userId : String) (last : Option UserOrderRow)
    (hlimit : 1 ≤ limit) :
    v.pagePinned userId (last.map UserOrder.cursorOf) limit (v.aggregates userId .active).1 =
      let found := behindCursor UserOrderRow.position (v.userOrder.ordered userId .pinned) last
      { items := (found.take limit.toNat).filterMap (v.shownPin userId)
        hasMore := limit.toNat < found.length
        nextCursor := (nextCursor limit.toNat found).map v.pinCursor } := by
  dsimp only
  generalize hfound : behindCursor UserOrderRow.position (v.userOrder.ordered userId .pinned) last =
    found
  have hrows : v.userOrder.listPinned userId .pinned (last.map UserOrder.cursorOf)
      (limit + 1).toNat = found.take (limit.toNat + 1) := by
    rw [UserOrder.listPinned_eq, hfound]
    congr 1
    omega
  have hwindow : (found.take (limit.toNat + 1)).take limit.toNat = found.take limit.toNat := by
    rw [List.take_take, Nat.min_eq_left (Nat.le_succ _)]
  have hmore : limit < ((found.take (limit.toNat + 1)).length : ℤ) ↔ limit.toNat < found.length := by
    rw [List.length_take]
    omega
  have hitems := pagePinned_items v userId (last.map UserOrder.cursorOf) limit
  rw [hrows, hwindow] at hitems
  refine SidebarItemsResponse.ext hitems ?_ ?_
  · simp only [pagePinned, hrows]
    exact decide_eq_decide.mpr hmore
  · simp only [pagePinned, hrows, hwindow, hmore, nextCursor]
    split <;> rfl

theorem items_pinned (row : UserOrderRow) (hlimit : 1 ≤ limit ∧ limit ≤ maxLimit) :
    v.items userId .active "pinned" (some (v.pinCursor row)) (some limit) rank =
      let found :=
        behindCursor UserOrderRow.position (v.userOrder.ordered userId .pinned) (some row)
      .ok
        { items := (found.take limit.toNat).filterMap (v.shownPin userId)
          hasMore := limit.toNat < found.length
          nextCursor := (nextCursor limit.toNat found).map v.pinCursor } := by
  have hparse : ScopeToken.parse v.wire "pinned" = some .pinned := rfl
  have hvalid : validateLimit limit = .ok () := if_pos hlimit
  have hdecode : Cursor.decode v.wire (v.pinCursor row) .pinned =
      .ok (.pinned row.orderKey row.item.itemType.asStr row.item.itemId) :=
    decode_encode_pinned v.wire _ _ _
  have hcursor : (Cursor.pinned row.orderKey row.item.itemType.asStr
      row.item.itemId).toPinnedCursor = .ok (UserOrder.cursorOf row) := by
    simp only [Cursor.toPinnedCursor, parseItemType_asStr]
    rfl
  have hpage := pagePinned_eq v userId (some row) hlimit.1
  rw [Option.map_some] at hpage
  simp only [← hpage]
  simp only [items, hparse, Option.getD_some, hvalid, hdecode]
  simp only [bind, Except.bind, hcursor]
  rfl

theorem follow_pinned {last : Option UserOrderRow} {requests : List (ℤ × (GroupKey → ℕ))}
    (hlimits : ∀ request ∈ requests, 1 ≤ request.1 ∧ request.1 ≤ maxLimit) :
    v.follow userId .active "pinned" requests (last.map v.pinCursor) =
      let found := readFrom UserOrderRow.position (v.userOrder.ordered userId .pinned)
        (requests.map (·.1.toNat)) last
      .ok (found.1.filterMap (v.shownPin userId), found.2.map v.pinCursor) := by
  induction requests generalizing last with
  | nil => cases last <;> rfl
  | cons request requests ih =>
      obtain ⟨hlimit, hlimits⟩ := List.forall_mem_cons.mp hlimits
      cases last with
      | none => rfl
      | some row =>
          rw [Option.map_some, follow, items_pinned row hlimit]
          simp only [bind, Except.bind]
          rw [ih hlimits]
          simp only [List.map_cons, readFrom, List.filterMap_append]
          rfl

end Windows

end SidebarService

end Zaowutai.Sidebar
