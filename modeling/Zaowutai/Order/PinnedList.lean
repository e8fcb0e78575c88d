import Zaowutai.Lib.Keyset
import Zaowutai.Lib.Run
import Zaowutai.Order.UserOrder

/-!
# The pin order is a list

Each scene of a user stands for a list of items, and every call for an operation
on it.  The keys of a scene ascend strictly along its list, so an operation is
carried out by giving one row a key between those of its new neighbours.
-/

namespace Zaowutai.Order

open Zaowutai.Lib

namespace UserOrder

variable {t : UserOrder} {userId user : String} {scene place : OrderScene}
  {item moved after : OrderItemRef}

section Queries

def sceneRows (t : UserOrder) (userId : String) (scene : OrderScene) : List UserOrderRow :=
  t.rows.filter (UserOrderRow.InScene userId scene)

theorem not_position_le {row other : UserOrderRow} (h : row.orderKey < other.orderKey) :
    ¬other.position ≤ row.position := by
  rw [UserOrderRow.position, UserOrderRow.position, Prod.Lex.toLex_le_toLex]
  rintro (hlt | ⟨heq, -⟩)
  · exact absurd (hlt.trans h) (lt_irrefl _)
  · exact absurd heq h.ne'

theorem select_eq {p : UserOrderRow → Prop} [DecidablePred p] {rows : List UserOrderRow}
    (hranked : Ranked UserOrderRow.orderKey rows) (hperm : (t.rows.filter p).Perm rows) :
    t.select p = rows :=
  hranked.insertionSort_eq (fun _ _ ↦ not_position_le) hperm

theorem ordered_perm :
    (t.ordered userId scene).Perm (t.sceneRows userId scene) :=
  List.perm_insertionSort _ _

theorem mem_ordered {row : UserOrderRow} :
    row ∈ t.ordered userId scene ↔ row ∈ t.rows ∧ row.userId = userId ∧ row.scene = scene := by
  rw [ordered_perm.mem_iff, sceneRows, List.mem_filter, decide_eq_true_iff, UserOrderRow.InScene]

theorem mem_items :
    item ∈ t.items userId scene ↔ ∃ row ∈ t.rows, row.primaryKey = (userId, scene, item) := by
  simp only [items, List.mem_map, mem_ordered, UserOrderRow.primaryKey, Prod.mk.injEq, and_assoc]

theorem eq_of_primaryKey_eq {row other : UserOrderRow} (hrow : row ∈ t.rows) (hother : other ∈ t.rows)
    (h : row.primaryKey = other.primaryKey) : row = other :=
  List.inj_on_of_nodup_map (List.pairwise_map.mpr t.keyed) hrow hother h

theorem primaryKey_eq_of_mem_ordered {row : UserOrderRow} (hrow : row ∈ t.ordered userId scene) :
    row.primaryKey = (userId, scene, row.item) := by
  obtain ⟨-, huser, hscene⟩ := mem_ordered.mp hrow
  rw [UserOrderRow.primaryKey, huser, hscene]

theorem items_nodup : (t.items userId scene).Nodup := by
  refine List.Nodup.map_on (fun row hrow other hother heq ↦ ?_) ?_
  · refine eq_of_primaryKey_eq (mem_ordered.mp hrow).1 (mem_ordered.mp hother).1 ?_
    rw [primaryKey_eq_of_mem_ordered hrow, primaryKey_eq_of_mem_ordered hother, heq]
  · have hrows : t.rows.Nodup := t.keyed.imp fun h heq ↦ h (congrArg _ heq)
    exact ordered_perm.nodup_iff.mpr (hrows.filter _)

theorem rowOrderKey_eq {row : UserOrderRow} (hrow : row ∈ t.ordered userId scene) :
    t.rowOrderKey userId scene row.item = some row.orderKey := by
  have hkey := primaryKey_eq_of_mem_ordered hrow
  have hmem := (mem_ordered.mp hrow).1
  rw [rowOrderKey]
  cases hfind : t.rows.find? fun row' ↦ row'.primaryKey = (userId, scene, row.item) with
  | none => exact absurd hkey (by simpa using List.find?_eq_none.mp hfind row hmem)
  | some found =>
      have hfound : found.primaryKey = (userId, scene, row.item) := by
        simpa using List.find?_some hfind
      have heq : found = row :=
        eq_of_primaryKey_eq (List.mem_of_find?_eq_some hfind) hmem (hfound.trans hkey.symm)
      rw [heq, Option.map_some]

theorem rowOrderKey_eq_none (h : item ∉ t.items userId scene) :
    t.rowOrderKey userId scene item = none := by
  rw [rowOrderKey, Option.map_eq_none_iff, List.find?_eq_none]
  intro row hrow
  rw [decide_eq_true_iff]
  exact fun hkey ↦ h (mem_items.mpr ⟨row, hrow, hkey⟩)

theorem minOrderKey_le {row : UserOrderRow} (hrow : row ∈ t.ordered userId scene) :
    ∃ min, t.minOrderKey userId scene = some min ∧ min ≤ row.orderKey := by
  have hmem : row.orderKey ∈ (t.sceneRows userId scene).map UserOrderRow.orderKey :=
    List.mem_map_of_mem (ordered_perm.subset hrow)
  rw [minOrderKey, ← sceneRows]
  cases hmin : ((t.sceneRows userId scene).map UserOrderRow.orderKey).min? with
  | none => exact absurd hmem (by simp [List.min?_eq_none_iff.mp hmin])
  | some min => exact ⟨min, rfl, (List.min?_eq_some_iff.mp hmin).2 _ hmem⟩

theorem follows_iff {row : UserOrderRow} {afterKey : ℤ} :
    Follows userId scene afterKey after moved row ↔
      row.InScene userId scene ∧ row.item ≠ moved ∧
        (afterKey < row.orderKey ∨
          row.orderKey = afterKey ∧
            (after.itemType.asStr < row.item.itemType.asStr ∨
              row.item.itemType.asStr = after.itemType.asStr ∧ after.itemId < row.item.itemId)) := by
  have hmoved : row.item ≠ moved ↔
      ¬(row.item.itemType = moved.itemType ∧ row.item.itemId = moved.itemId) := by
    obtain ⟨itemType, itemId⟩ := moved
    rw [Ne, ← OrderItemRef.mk.injEq]
  rw [Follows, hmoved, and_comm (a := ¬_)]

theorem successorKey_eq {before behind : List UserOrderRow} {row : UserOrderRow}
    (hranked : Ranked UserOrderRow.orderKey (t.ordered userId scene))
    (hsplit : t.ordered userId scene = before ++ row :: behind) :
    t.successorKey userId scene row.orderKey row.item moved =
      (behind.filter (·.item ≠ moved)).head?.map UserOrderRow.orderKey := by
  have hmem : ∀ other ∈ behind, other.InScene userId scene := by
    intro other hother
    have hordered : other ∈ t.ordered userId scene := by
      rw [hsplit]
      exact List.mem_append_right _ (List.mem_cons_of_mem _ hother)
    exact (mem_ordered.mp hordered).2
  rw [hsplit, ranked_append, ranked_cons] at hranked
  obtain ⟨-, ⟨hbehind, hranked⟩, hbefore⟩ := hranked
  have hrows : (t.ordered userId scene).filter (Follows userId scene row.orderKey row.item moved) =
      behind.filter (·.item ≠ moved) := by
    have hnone : before.filter (Follows userId scene row.orderKey row.item moved) = [] := by
      refine List.filter_eq_nil_iff.mpr fun other hother ↦ ?_
      have hlt := hbefore other hother row List.mem_cons_self
      rw [decide_eq_true_iff, follows_iff]
      rintro ⟨-, -, hgt | ⟨heq, -⟩⟩ <;> omega
    have hself : ¬Follows userId scene row.orderKey row.item moved row := by
      rw [follows_iff]
      rintro ⟨-, -, hgt | ⟨-, hgt | ⟨-, hgt⟩⟩⟩ <;> exact lt_irrefl _ hgt
    rw [hsplit, List.filter_append, hnone, List.filter_cons_of_neg (by simpa using hself)]
    refine List.filter_congr fun other hother ↦ decide_eq_decide.mpr ?_
    rw [follows_iff]
    exact ⟨fun h ↦ h.2.1, fun h ↦ ⟨hmem other hother, h, .inl (hbehind other hother)⟩⟩
  have hperm : (t.rows.filter (Follows userId scene row.orderKey row.item moved)).Perm
      (behind.filter (·.item ≠ moved)) := by
    have hscene : t.rows.filter (Follows userId scene row.orderKey row.item moved) =
        (t.sceneRows userId scene).filter (Follows userId scene row.orderKey row.item moved) := by
      rw [sceneRows, List.filter_filter]
      refine List.filter_congr fun other _ ↦ ?_
      rw [← Bool.decide_and, decide_eq_decide]
      exact ⟨fun h ↦ ⟨h, h.1⟩, fun h ↦ h.1⟩
    rw [hscene, ← hrows]
    exact ordered_perm.symm.filter _
  rw [successorKey, select_eq (hranked.filter _) hperm]

end Queries

section Pages

theorem asStr_injective : Function.Injective OrderItemType.asStr := by
  intro a b h
  cases a <;> cases b
  · rfl
  · exact absurd h (by decide)
  · exact absurd h (by decide)
  · rfl

theorem item_eq_of_position_eq {row other : UserOrderRow} (h : row.position = other.position) :
    row.item = other.item := by
  have hkey := congrArg (fun p ↦ ofLex (ofLex p).2) h
  have htype : row.item.itemType.asStr = other.item.itemType.asStr := congrArg Prod.fst hkey
  have hid : row.item.itemId = other.item.itemId := congrArg Prod.snd hkey
  have hitem : ∀ {a b : OrderItemRef}, a.itemType = b.itemType → a.itemId = b.itemId → a = b := by
    rintro ⟨_, _⟩ ⟨_, _⟩ rfl rfl
    rfl
  exact hitem (asStr_injective htype) hid

theorem ordered_ranked (t : UserOrder) (userId : String) (scene : OrderScene) :
    Ranked UserOrderRow.position (t.ordered userId scene) := by
  have hsorted := List.pairwise_insertionSort
    (fun row other : UserOrderRow ↦ row.position ≤ other.position)
    (t.rows.filter (UserOrderRow.InScene userId scene))
  have hitems : (t.ordered userId scene).Pairwise (·.item ≠ ·.item) :=
    List.pairwise_map.mp items_nodup
  exact (hsorted.and hitems).imp fun h ↦
    lt_of_le_of_ne h.1 fun heq ↦ h.2 (item_eq_of_position_eq heq)

def cursorOf (row : UserOrderRow) : PinnedCursor :=
  ⟨row.orderKey, row.item.itemType, row.item.itemId⟩

theorem after_cursorOf {last row : UserOrderRow} :
    After userId scene (some (cursorOf last)) row ↔
      row.InScene userId scene ∧ last.position < row.position := by
  rw [After, UserOrderRow.position, UserOrderRow.position, Prod.Lex.toLex_lt_toLex,
    Prod.Lex.toLex_lt_toLex]
  simp only [Option.mem_some_iff, forall_eq', cursorOf, eq_comm (a := row.orderKey),
    eq_comm (a := row.item.itemType.asStr)]

theorem listPinned_eq (last : Option UserOrderRow) (limit : ℕ) :
    t.listPinned userId scene (last.map cursorOf) limit =
      (behindCursor UserOrderRow.position (t.ordered userId scene) last).take limit := by
  cases last with
  | none =>
      have hwhere : t.rows.filter (After userId scene none) =
          t.rows.filter (UserOrderRow.InScene userId scene) := by
        refine List.filter_congr fun row _ ↦ decide_eq_decide.mpr ?_
        simp [After]
      simp only [listPinned, select, Option.map_none, hwhere]
      rfl
  | some last =>
      have hrows : (t.rows.filter (After userId scene (some (cursorOf last)))).Perm
          (behind UserOrderRow.position last.position (t.ordered userId scene)) := by
        have hwhere : t.rows.filter (After userId scene (some (cursorOf last))) =
            (t.sceneRows userId scene).filter (last.position < ·.position) := by
          rw [sceneRows, List.filter_filter]
          refine List.filter_congr fun row _ ↦ ?_
          rw [← Bool.decide_and, decide_eq_decide, after_cursorOf, and_comm]
        rw [hwhere]
        exact ordered_perm.symm.filter _
      have hsorted := (ordered_ranked t userId scene).filter
        (last.position < ·.position)
      rw [listPinned, select, Option.map_some]
      exact congrArg (List.take limit)
        (hsorted.insertionSort_eq (fun _ _ hlt ↦ not_le.mpr hlt) hrows)

end Pages

section Updates

variable {row : UserOrderRow} {pre post : List UserOrderRow} {key : ℤ}

theorem ordered_congr {t' : UserOrder} (h : t'.sceneRows userId scene = t.sceneRows userId scene) :
    t'.ordered userId scene = t.ordered userId scene :=
  congrArg (List.insertionSort _) h

theorem sceneRows_delete (p : UserOrderRow → Prop) [DecidablePred p] :
    (t.delete p).sceneRows userId scene = (t.sceneRows userId scene).filter (¬p ·) := by
  simp only [sceneRows, delete, List.filter_filter, Bool.and_comm]

theorem sceneRows_item_nodup : ((t.sceneRows userId scene).map UserOrderRow.item).Nodup :=
  (ordered_perm.map UserOrderRow.item).nodup_iff.mp items_nodup

theorem rekey_of_ne (h : row.primaryKey ≠ (userId, scene, item)) :
    rekey userId scene item key row = row :=
  if_neg h

theorem rekey_inScene :
    (rekey userId scene item key row).InScene user place ↔ row.InScene user place := by
  rw [rekey]
  split <;> rfl

theorem sceneRows_setOrderKey :
    (t.setOrderKey userId scene item key).sceneRows user place =
      (t.sceneRows user place).map (rekey userId scene item key) := by
  rw [sceneRows, setOrderKey, List.filter_map]
  congr 1
  exact List.filter_congr fun row _ ↦ decide_eq_decide.mpr rekey_inScene

theorem sceneRows_setOrderKey_of_ne (h : ¬(user = userId ∧ place = scene)) :
    (t.setOrderKey userId scene item key).sceneRows user place = t.sceneRows user place := by
  rw [sceneRows_setOrderKey]
  refine (List.map_congr_left fun row hrow ↦ ?_).trans (List.map_id _)
  obtain ⟨huser, hscene⟩ := of_decide_eq_true (List.mem_filter.mp hrow).2
  refine rekey_of_ne fun hkey ↦ h ⟨?_, ?_⟩
  · exact huser.symm.trans (congrArg Prod.fst hkey)
  · exact hscene.symm.trans (congrArg (·.2.1) hkey)

theorem sceneRows_setOrderKey_perm
    (hperm : (t.sceneRows userId scene).Perm (pre ++ row :: post)) :
    ((t.setOrderKey userId scene row.item key).sceneRows userId scene).Perm
      (pre ++ { row with orderKey := key } :: post) := by
  have hother : ∀ other ∈ pre ++ post, rekey userId scene row.item key other = other := by
    have hnodup := (hperm.map UserOrderRow.item).nodup_iff.mp sceneRows_item_nodup
    rw [List.map_append, List.map_cons, List.nodup_middle, List.nodup_cons] at hnodup
    refine fun other hother ↦ rekey_of_ne fun hkey ↦ hnodup.1 ?_
    rw [← List.map_append]
    exact List.mem_map.mpr ⟨other, hother, congrArg (·.2.2) hkey⟩
  have hself : rekey userId scene row.item key row = { row with orderKey := key } := by
    have hrow : row ∈ t.sceneRows userId scene := hperm.symm.subset (by simp)
    obtain ⟨huser, hscene⟩ := of_decide_eq_true (List.mem_filter.mp hrow).2
    exact if_pos (by rw [UserOrderRow.primaryKey, huser, hscene])
  have hpre := List.map_congr_left fun other h ↦ hother other (List.mem_append_left post h)
  have hpost := List.map_congr_left fun other h ↦ hother other (List.mem_append_right pre h)
  have hmap := hperm.map (rekey userId scene row.item key)
  rw [List.map_append, List.map_cons, hself, hpre, hpost, List.map_id', List.map_id'] at hmap
  rw [sceneRows_setOrderKey]
  exact hmap

theorem ordered_setOrderKey (hranked : Ranked UserOrderRow.orderKey (t.ordered userId scene))
    (hrow : row ∈ t.ordered userId scene)
    (hothers : (t.ordered userId scene).filter (·.item ≠ row.item) = pre ++ post)
    (hpre : ∀ other ∈ pre, other.orderKey < key)
    (hpost : ∀ other ∈ post.head?, key < other.orderKey) :
    Ranked UserOrderRow.orderKey (pre ++ { row with orderKey := key } :: post) ∧
      (t.setOrderKey userId scene row.item key).ordered userId scene =
        pre ++ { row with orderKey := key } :: post := by
  have hperm : (t.sceneRows userId scene).Perm (pre ++ row :: post) :=
    ordered_perm.symm.trans (perm_of_filter_ne items_nodup hrow hothers)
  have hkeys : Ranked UserOrderRow.orderKey (pre ++ post) := hothers ▸ hranked.filter _
  have hplaced : Ranked UserOrderRow.orderKey (pre ++ { row with orderKey := key } :: post) :=
    hkeys.insert_between hpre hpost
  exact ⟨hplaced, select_eq hplaced (sceneRows_setOrderKey_perm hperm)⟩

end Updates

section Rebalance

def respaced (n : ℕ) (rows : List UserOrderRow) : List UserOrderRow :=
  (rows.zipIdx n).map fun entry ↦ { entry.1 with orderKey := (entry.2 + 1) * pinGap }

theorem respaced_cons (n : ℕ) (row : UserOrderRow) (rows : List UserOrderRow) :
    respaced n (row :: rows) =
      { row with orderKey := ((n : ℕ) + 1) * pinGap } :: respaced (n + 1) rows :=
  rfl

theorem map_item_respaced (n : ℕ) (rows : List UserOrderRow) :
    (respaced n rows).map UserOrderRow.item = rows.map UserOrderRow.item := by
  induction rows generalizing n with
  | nil => rfl
  | cons row rows ih => rw [respaced_cons, List.map_cons, List.map_cons, ih]

theorem le_orderKey_of_mem_respaced {n : ℕ} {rows : List UserOrderRow} :
    ∀ row ∈ respaced n rows, (n + 1) * pinGap ≤ row.orderKey := by
  induction rows generalizing n with
  | nil => exact List.forall_mem_nil _
  | cons row rows ih =>
      rw [respaced_cons]
      refine List.forall_mem_cons.mpr ⟨le_rfl, fun other hother ↦ ?_⟩
      have hkey := ih other hother
      push_cast [pinGap] at hkey ⊢
      omega

theorem pairwise_respaced (n : ℕ) (rows : List UserOrderRow) :
    (respaced n rows).Pairwise fun row other ↦ row.orderKey + pinGap ≤ other.orderKey := by
  induction rows generalizing n with
  | nil => exact List.Pairwise.nil
  | cons row rows ih =>
      rw [respaced_cons]
      refine List.pairwise_cons.mpr ⟨fun other hother ↦ ?_, ih (n + 1)⟩
      have hkey := le_orderKey_of_mem_respaced other hother
      push_cast [pinGap] at hkey ⊢
      omega

theorem ranked_respaced (n : ℕ) (rows : List UserOrderRow) :
    Ranked UserOrderRow.orderKey (respaced n rows) :=
  (pairwise_respaced n rows).imp fun h ↦ by rw [pinGap] at h; omega

theorem sceneRows_respace_perm {todo : List UserOrderRow} {n : ℕ} {done : List UserOrderRow}
    (hperm : (t.sceneRows userId scene).Perm (done ++ todo)) :
    (((todo.zipIdx n).foldl (fun t entry ↦
      t.setOrderKey userId scene entry.1.item ((entry.2 + 1) * pinGap)) t).sceneRows
        userId scene).Perm (done ++ respaced n todo) := by
  induction todo generalizing t n done with
  | nil => exact hperm
  | cons row todo ih =>
      rw [respaced_cons, List.zipIdx_cons, List.foldl_cons, List.append_cons]
      refine ih ?_
      rw [← List.append_cons]
      exact sceneRows_setOrderKey_perm hperm

theorem ordered_rebalanceScene :
    (t.rebalanceScene userId scene).ordered userId scene =
      respaced 0 (t.ordered userId scene) := by
  have hperm : (t.sceneRows userId scene).Perm ([] ++ t.ordered userId scene) := ordered_perm.symm
  exact select_eq (ranked_respaced 0 _) (sceneRows_respace_perm hperm)

theorem sceneRows_rebalanceScene_of_ne (h : ¬(user = userId ∧ place = scene)) :
    (t.rebalanceScene userId scene).sceneRows user place = t.sceneRows user place := by
  rw [rebalanceScene]
  induction (t.ordered userId scene).zipIdx generalizing t with
  | nil => rfl
  | cons entry entries ih => rw [List.foldl_cons, ih, sceneRows_setOrderKey_of_ne h]

end Rebalance

section Moves

theorem midpoint_between {left right : ℤ} (h : left + 2 ≤ right) :
    left < left + (right - left).tdiv 2 ∧ left + (right - left).tdiv 2 < right := by
  rw [Int.tdiv_eq_ediv_of_nonneg (by omega)]
  omega

theorem exists_split (h : item ∈ t.items userId scene) :
    ∃ before row behind, t.ordered userId scene = before ++ row :: behind ∧ row.item = item := by
  obtain ⟨row, hrow, hitem⟩ := List.mem_map.mp h
  obtain ⟨before, behind, hsplit⟩ := List.append_of_mem hrow
  exact ⟨before, row, behind, hsplit, hitem⟩

/-- The key opens the place directly behind `after` for `moved`. -/
def Opens (t : UserOrder) (userId : String) (scene : OrderScene) (moved after : OrderItemRef)
    (key : ℤ) : Prop :=
  Ranked UserOrderRow.orderKey (t.ordered userId scene) ∧
    ∃ before row behind, t.ordered userId scene = before ++ row :: behind ∧ row.item = after ∧
      row.orderKey < key ∧ ∀ other ∈ (behind.filter (·.item ≠ moved)).head?, key < other.orderKey

theorem opens_last {before behind : List UserOrderRow} {row : UserOrderRow}
    (hranked : Ranked UserOrderRow.orderKey (t.ordered userId scene))
    (hsplit : t.ordered userId scene = before ++ row :: behind)
    (hlast : t.successorKey userId scene row.orderKey row.item moved = none) :
    t.Opens userId scene moved row.item (row.orderKey + pinGap) := by
  rw [successorKey_eq hranked hsplit, Option.map_eq_none_iff] at hlast
  have hgap : (0 : ℤ) < pinGap := by decide
  refine ⟨hranked, before, row, behind, hsplit, rfl, Int.lt_add_of_pos_right _ hgap, ?_⟩
  rw [hlast]
  exact fun other hother ↦ nomatch hother

theorem opens_between {before behind : List UserOrderRow} {row : UserOrderRow} {right : ℤ}
    (hranked : Ranked UserOrderRow.orderKey (t.ordered userId scene))
    (hsplit : t.ordered userId scene = before ++ row :: behind)
    (hnext : t.successorKey userId scene row.orderKey row.item moved = some right)
    (hroom : row.orderKey + 2 ≤ right) :
    t.Opens userId scene moved row.item (row.orderKey + (right - row.orderKey).tdiv 2) := by
  rw [successorKey_eq hranked hsplit, Option.map_eq_some_iff] at hnext
  obtain ⟨next, hhead, rfl⟩ := hnext
  obtain ⟨hlow, hhigh⟩ := midpoint_between hroom
  refine ⟨hranked, before, row, behind, hsplit, rfl, hlow, ?_⟩
  rw [hhead]
  exact fun other hother ↦ Option.some.inj hother ▸ hhigh

theorem successor_rebalanceScene {before behind : List UserOrderRow} {row : UserOrderRow}
    {right : ℤ}
    (hsplit : (t.rebalanceScene userId scene).ordered userId scene = before ++ row :: behind)
    (hnext : (t.rebalanceScene userId scene).successorKey userId scene row.orderKey row.item moved =
      some right) : row.orderKey + pinGap ≤ right := by
  have hspaced := pairwise_respaced 0 (t.ordered userId scene)
  have hranked := ranked_respaced 0 (t.ordered userId scene)
  rw [← ordered_rebalanceScene] at hspaced hranked
  rw [successorKey_eq hranked hsplit, Option.map_eq_some_iff] at hnext
  obtain ⟨next, hhead, rfl⟩ := hnext
  rw [hsplit, List.pairwise_append, List.pairwise_cons] at hspaced
  exact hspaced.2.1.1 next (List.mem_of_mem_filter (List.mem_of_head? hhead))

theorem newKey_opens (moved : OrderItemRef)
    (hranked : Ranked UserOrderRow.orderKey (t.ordered userId scene))
    (hafter : after ∈ t.items userId scene) :
    ∃ key t', t.newKey userId scene moved (some after) = .ok (some (key, t')) ∧
      t'.Opens userId scene moved after key ∧ t'.items userId scene = t.items userId scene := by
  obtain ⟨before, row, behind, hsplit, rfl⟩ := exists_split hafter
  have hrow : row ∈ t.ordered userId scene := by simp [hsplit]
  simp only [newKey, rowOrderKey_eq hrow]
  cases hnext : t.successorKey userId scene row.orderKey row.item moved with
  | none => exact ⟨_, _, rfl, opens_last hranked hsplit hnext, rfl⟩
  | some right =>
      by_cases hroom : right - row.orderKey ≥ rebalanceThreshold
      · simp only [if_pos hroom]
        rw [rebalanceThreshold] at hroom
        exact ⟨_, _, rfl, opens_between hranked hsplit hnext (by omega), rfl⟩
      · simp only [if_neg hroom]
        have hitems : (t.rebalanceScene userId scene).items userId scene = t.items userId scene := by
          rw [items, ordered_rebalanceScene, map_item_respaced, items]
        have hranked' := ranked_respaced 0 (t.ordered userId scene)
        rw [← ordered_rebalanceScene] at hranked'
        obtain ⟨before', row', behind', hsplit', hitem⟩ := exists_split (hitems ▸ hafter)
        have hrow' : row' ∈ (t.rebalanceScene userId scene).ordered userId scene := by
          simp [hsplit']
        rw [← hitem, rowOrderKey_eq hrow']
        dsimp only
        cases hnext' : (t.rebalanceScene userId scene).successorKey userId scene row'.orderKey
            row'.item moved with
        | none => exact ⟨_, _, rfl, opens_last hranked' hsplit' hnext', hitems⟩
        | some right' =>
            have hgap := successor_rebalanceScene hsplit' hnext'
            rw [pinGap] at hgap
            exact ⟨_, _, rfl, opens_between hranked' hsplit' hnext' (by omega), hitems⟩

theorem without_map_item (rows : List UserOrderRow) :
    without moved (rows.map UserOrderRow.item) =
      (rows.filter (·.item ≠ moved)).map UserOrderRow.item :=
  List.filter_map ..

theorem setOrderKey_of_opens {key : ℤ} (h : t.Opens userId scene moved after key)
    (hmoved : moved ∈ t.items userId scene) :
    Ranked UserOrderRow.orderKey ((t.setOrderKey userId scene moved key).ordered userId scene) ∧
      (t.setOrderKey userId scene moved key).items userId scene =
        moveAfter moved after (t.items userId scene) := by
  obtain ⟨hranked, before, row, behind, hsplit, rfl, hlow, hhigh⟩ := h
  obtain ⟨own, hown, rfl⟩ := List.mem_map.mp hmoved
  have hnodup : (t.items userId scene).Nodup := items_nodup
  have hitems : t.items userId scene =
      before.map UserOrderRow.item ++ row.item :: behind.map UserOrderRow.item := by
    rw [items, hsplit, List.map_append, List.map_cons]
  have hothers : (t.ordered userId scene).filter (·.item ≠ own.item) =
      (before ++ [row]).filter (·.item ≠ own.item) ++ behind.filter (·.item ≠ own.item) := by
    rw [hsplit, List.append_cons, List.filter_append]
  have hbefore : ∀ other ∈ (before ++ [row]).filter (·.item ≠ own.item),
      other.orderKey < key := by
    intro other hother
    rw [hsplit, ranked_append] at hranked
    rcases List.mem_append.mp (List.mem_of_mem_filter hother) with hmem | hmem
    · exact (hranked.2.2 other hmem row List.mem_cons_self).trans hlow
    · rwa [List.mem_singleton.mp hmem]
  obtain ⟨hplaced, hordered⟩ := ordered_setOrderKey hranked hown hothers hbefore hhigh
  constructor
  · rw [hordered]
    exact hplaced
  · rw [items, hordered, hitems, moveAfter_append (hitems ▸ hnodup) (hitems ▸ hmoved),
      List.map_append, List.map_cons, ← without_map_item, ← without_map_item, List.map_append]
    rfl

end Moves

section Operations

theorem items_delete {p : UserOrderRow → Prop} [DecidablePred p]
    (hranked : Ranked UserOrderRow.orderKey (t.ordered userId scene))
    (hp : ∀ row ∈ t.ordered userId scene, p row ↔ row.item = item) :
    Ranked UserOrderRow.orderKey ((t.delete p).ordered userId scene) ∧
      (t.delete p).items userId scene = without item (t.items userId scene) := by
  have hordered : (t.delete p).ordered userId scene = (t.ordered userId scene).filter (¬p ·) := by
    refine select_eq (hranked.filter _) ?_
    rw [← sceneRows, sceneRows_delete]
    exact ordered_perm.symm.filter _
  have hfilter : (t.ordered userId scene).filter (¬p ·) =
      (t.ordered userId scene).filter (·.item ≠ item) :=
    List.filter_congr fun row hrow ↦ decide_eq_decide.mpr (not_congr (hp row hrow))
  rw [items, hordered, items, without_map_item, hfilter]
  exact ⟨hranked.filter _, rfl⟩

theorem unpin_lists (hranked : Ranked UserOrderRow.orderKey (t.ordered userId scene)) :
    Ranked UserOrderRow.orderKey ((t.unpin userId scene item).2.ordered userId scene) ∧
      (t.unpin userId scene item).2.items userId scene = without item (t.items userId scene) := by
  refine items_delete hranked fun row hrow ↦ ?_
  rw [primaryKey_eq_of_mem_ordered hrow]
  exact ⟨fun h ↦ congrArg (fun key ↦ key.2.2) h, fun h ↦ by rw [h]⟩

theorem removeItem_lists (item : OrderItemRef)
    (hranked : Ranked UserOrderRow.orderKey (t.ordered userId scene)) :
    Ranked UserOrderRow.orderKey ((t.removeItem userId item).ordered userId scene) ∧
      (t.removeItem userId item).items userId scene = without item (t.items userId scene) :=
  items_delete hranked fun _ hrow ↦ and_iff_right (mem_ordered.mp hrow).2.1

theorem removeItems_eq (items : List OrderItemRef) :
    t.removeItems userId items = items.foldl (fun t item ↦ t.removeItem userId item) t := by
  cases items <;> rfl

theorem removeItems_lists (batch : List OrderItemRef)
    (hranked : Ranked UserOrderRow.orderKey (t.ordered userId scene)) :
    Ranked UserOrderRow.orderKey ((t.removeItems userId batch).ordered userId scene) ∧
      (t.removeItems userId batch).items userId scene =
        batch.foldl (fun l item ↦ without item l) (t.items userId scene) := by
  rw [removeItems_eq]
  induction batch generalizing t with
  | nil => exact ⟨hranked, rfl⟩
  | cons item batch ih =>
      obtain ⟨hranked, hitems⟩ := removeItem_lists item hranked
      rw [List.foldl_cons, List.foldl_cons, ← hitems]
      exact ih hranked

theorem insert_lists {row : UserOrderRow}
    (hfree : ∀ other ∈ t.rows, row.primaryKey ≠ other.primaryKey)
    (hscene : row.InScene userId scene)
    (hranked : Ranked UserOrderRow.orderKey (t.ordered userId scene))
    (hbelow : ∀ other ∈ (t.ordered userId scene).head?, row.orderKey < other.orderKey) :
    Ranked UserOrderRow.orderKey ((t.insert row hfree).ordered userId scene) ∧
      (t.insert row hfree).items userId scene = row.item :: t.items userId scene := by
  have hfirst : Ranked UserOrderRow.orderKey ([] ++ row :: t.ordered userId scene) :=
    Ranked.insert_between hranked (List.forall_mem_nil _) hbelow
  have hrows : (t.insert row hfree).sceneRows userId scene = row :: t.sceneRows userId scene :=
    List.filter_cons_of_pos (decide_eq_true hscene)
  have hperm : ((t.insert row hfree).sceneRows userId scene).Perm
      (row :: t.ordered userId scene) := hrows ▸ ordered_perm.symm.cons row
  have hordered : (t.insert row hfree).ordered userId scene = row :: t.ordered userId scene :=
    select_eq hfirst hperm
  rw [items, hordered, items]
  exact ⟨hfirst, rfl⟩

theorem pin_lists (hranked : Ranked UserOrderRow.orderKey (t.ordered userId scene)) :
    Ranked UserOrderRow.orderKey ((t.pin userId scene item).2.ordered userId scene) ∧
      (t.pin userId scene item).2.items userId scene = pushFront item (t.items userId scene) := by
  by_cases hmem : item ∈ t.items userId scene
  · rw [pin, dif_pos (mem_items.mp hmem), pushFront, if_pos hmem]
    exact ⟨hranked, rfl⟩
  · rw [pin, dif_neg (mt mem_items.mpr hmem), pushFront, if_neg hmem]
    have hfree : ∀ other ∈ t.rows, (userId, scene, item) ≠ other.primaryKey := fun other hother heq ↦
      hmem (mem_items.mpr ⟨other, hother, heq.symm⟩)
    refine insert_lists hfree ⟨rfl, rfl⟩ hranked fun other hother ↦ ?_
    obtain ⟨min, hmin, hle⟩ := minOrderKey_le (List.mem_of_head? hother)
    simp only [hmin]
    exact (Int.sub_lt_self min (by decide)).trans_le hle

theorem moveItem_none_lists (hranked : Ranked UserOrderRow.orderKey (t.ordered userId scene)) :
    Ranked UserOrderRow.orderKey ((t.moveItem userId scene moved none).2.ordered userId scene) ∧
      (t.moveItem userId scene moved none).2.items userId scene =
        moveFront moved (t.items userId scene) := by
  by_cases hmoved : moved ∈ t.items userId scene
  · obtain ⟨own, hown, rfl⟩ := List.mem_map.mp hmoved
    obtain ⟨min, hmin, -⟩ := minOrderKey_le hown
    have hbelow : ∀ other ∈ ((t.ordered userId scene).filter (·.item ≠ own.item)).head?,
        min - pinGap < other.orderKey := by
      intro other hother
      have hmem := List.mem_of_mem_filter (List.mem_of_head? hother)
      obtain ⟨min', hmin', hle⟩ := minOrderKey_le hmem
      obtain rfl := Option.some.inj (hmin.symm.trans hmin')
      rw [pinGap]
      omega
    have hothers : (t.ordered userId scene).filter (·.item ≠ own.item) =
        [] ++ (t.ordered userId scene).filter (·.item ≠ own.item) := rfl
    obtain ⟨hfirst, hordered⟩ :=
      ordered_setOrderKey hranked hown hothers (List.forall_mem_nil _) hbelow
    rw [moveItem, rowOrderKey_eq hown]
    simp only [newKey, hmin, Option.getD_some]
    rw [items, hordered, moveFront, if_pos hmoved, items, without_map_item]
    exact ⟨hfirst, rfl⟩
  · rw [moveItem, rowOrderKey_eq_none hmoved, moveFront, if_neg hmoved]
    exact ⟨hranked, rfl⟩

theorem moveItem_some_lists (hranked : Ranked UserOrderRow.orderKey (t.ordered userId scene)) :
    Ranked UserOrderRow.orderKey
        ((t.moveItem userId scene moved (some after)).2.ordered userId scene) ∧
      (t.moveItem userId scene moved (some after)).2.items userId scene =
        moveAfter moved after (t.items userId scene) := by
  by_cases hmoved : moved ∈ t.items userId scene
  · obtain ⟨own, hown, hitem⟩ := List.mem_map.mp hmoved
    have hkey := rowOrderKey_eq hown
    rw [hitem] at hkey
    by_cases hafter : after ∈ t.items userId scene
    · obtain ⟨key, t', hnew, hopens, hitems⟩ := newKey_opens moved hranked hafter
      rw [moveItem, hkey]
      simp only [hnew]
      rw [← hitems] at hmoved ⊢
      exact setOrderKey_of_opens hopens hmoved
    · rw [moveItem, hkey]
      simp only [newKey, rowOrderKey_eq_none hafter]
      rw [moveAfter, if_neg fun h ↦ hafter h.2.1]
      exact ⟨hranked, rfl⟩
  · rw [moveItem, rowOrderKey_eq_none hmoved, moveAfter, if_neg fun h ↦ hmoved h.1]
    exact ⟨hranked, rfl⟩

end Operations

end UserOrder

def Call.Addresses (user : String) (place : OrderScene) : Call → Prop
  | .pin userId scene _ | .unpin userId scene _ | .moveItem userId scene _ _ =>
      user = userId ∧ place = scene
  | .removeItem userId _ | .removeItems userId _ => user = userId

instance (user : String) (place : OrderScene) : DecidablePred (Call.Addresses user place)
  | .pin _ _ _ | .unpin _ _ _ | .moveItem _ _ _ _ => inferInstanceAs (Decidable (_ ∧ _))
  | .removeItem _ _ | .removeItems _ _ => inferInstanceAs (Decidable (_ = _))

def Call.operation : Call → List OrderItemRef → List OrderItemRef
  | .pin _ _ item => pushFront item
  | .unpin _ _ item | .removeItem _ item => without item
  | .moveItem _ _ moved none => moveFront moved
  | .moveItem _ _ moved (some after) => moveAfter moved after
  | .removeItems _ items => fun l ↦ items.foldl (fun l item ↦ without item l) l

def Call.named : Call → List OrderItemRef
  | .pin _ _ item | .unpin _ _ item | .removeItem _ item => [item]
  | .moveItem _ _ moved _ => [moved]
  | .removeItems _ items => items

def Call.effect (user : String) (place : OrderScene) (l : List OrderItemRef) (call : Call) :
    List OrderItemRef :=
  if call.Addresses user place then call.operation l else l

namespace UserOrder

variable {t : UserOrder} {user : String} {place : OrderScene}

theorem step_lists (call : Call) (h : call.Addresses user place)
    (hranked : Ranked UserOrderRow.orderKey (t.ordered user place)) :
    Ranked UserOrderRow.orderKey ((t.step call).ordered user place) ∧
      (t.step call).items user place = call.operation (t.items user place) := by
  cases call with
  | pin userId scene item =>
      obtain ⟨rfl, rfl⟩ := h
      exact pin_lists hranked
  | unpin userId scene item =>
      obtain ⟨rfl, rfl⟩ := h
      exact unpin_lists hranked
  | moveItem userId scene moved after =>
      obtain ⟨rfl, rfl⟩ := h
      cases after with
      | none => exact moveItem_none_lists hranked
      | some after => exact moveItem_some_lists hranked
  | removeItem userId item =>
      obtain rfl := h
      exact removeItem_lists item hranked
  | removeItems userId items =>
      obtain rfl := h
      exact removeItems_lists items hranked

theorem sceneRows_newKey {userId : String} {scene : OrderScene} {moved : OrderItemRef}
    {after : Option OrderItemRef} {key : ℤ} {t' : UserOrder}
    (h : ¬(user = userId ∧ place = scene))
    (hnew : t.newKey userId scene moved after = .ok (some (key, t'))) :
    t'.sceneRows user place = t.sceneRows user place := by
  cases after with
  | none =>
      cases hnew
      rfl
  | some after =>
      simp only [newKey] at hnew
      repeat' split at hnew
      all_goals cases hnew
      · rfl
      · rfl
      · exact sceneRows_rebalanceScene_of_ne h
      · exact sceneRows_rebalanceScene_of_ne h

theorem sceneRows_removeItem {userId : String} (item : OrderItemRef) (h : user ≠ userId) :
    (t.removeItem userId item).sceneRows user place = t.sceneRows user place := by
  rw [removeItem, sceneRows_delete]
  refine List.filter_eq_self.mpr fun row hrow ↦ decide_eq_true fun hp ↦ ?_
  have hscene := of_decide_eq_true (List.mem_filter.mp hrow).2
  exact h (hscene.1.symm.trans hp.1)

theorem sceneRows_step (call : Call) (h : ¬call.Addresses user place) :
    (t.step call).sceneRows user place = t.sceneRows user place := by
  cases call with
  | pin userId scene item =>
      rw [step, pin]
      split
      · rfl
      · exact List.filter_cons_of_neg (by simpa using fun hscene ↦ h ⟨hscene.1.symm, hscene.2.symm⟩)
  | unpin userId scene item =>
      rw [step, unpin, sceneRows_delete]
      refine List.filter_eq_self.mpr fun row hrow ↦ decide_eq_true fun hp ↦ ?_
      have hscene := of_decide_eq_true (List.mem_filter.mp hrow).2
      refine h ⟨?_, ?_⟩
      · exact hscene.1.symm.trans (congrArg Prod.fst hp)
      · exact hscene.2.symm.trans (congrArg (fun key ↦ key.2.1) hp)
  | moveItem userId scene moved after =>
      rw [step, moveItem]
      repeat' split
      · rfl
      · rfl
      · rfl
      · next key t' hnew =>
          rw [sceneRows_setOrderKey_of_ne h, sceneRows_newKey h hnew]
  | removeItem userId item => exact sceneRows_removeItem item h
  | removeItems userId items =>
      rw [step, removeItems_eq]
      induction items generalizing t with
      | nil => rfl
      | cons item items ih => rw [List.foldl_cons, ih h, sceneRows_removeItem item h]

end UserOrder

theorem Call.filter_operation (call : Call) (l : List OrderItemRef) :
    (call.operation l).filter (· ∉ call.named) = l.filter (· ∉ call.named) := by
  have hsingle : ∀ item (l : List OrderItemRef), l.filter (· ∉ [item]) = without item l := by
    simp [without]
  cases call with
  | pin userId scene item => rw [operation, named, hsingle, hsingle, without_pushFront]
  | unpin userId scene item => rw [operation, named, hsingle, hsingle, without_without]
  | moveItem userId scene moved after =>
      rw [named, hsingle, hsingle]
      cases after with
      | none => exact without_moveFront
      | some after => exact without_moveAfter
  | removeItem userId item => rw [operation, named, hsingle, hsingle, without_without]
  | removeItems userId items =>
      simp only [operation, named, foldl_without, List.filter_filter]
      exact List.filter_congr fun item _ ↦ Bool.and_self _

namespace UserOrder

def Lists (user : String) (place : OrderScene) (t : UserOrder) (l : List OrderItemRef) : Prop :=
  Ranked UserOrderRow.orderKey (t.ordered user place) ∧ t.items user place = l

theorem empty_lists {user : String} {place : OrderScene} : empty.Lists user place [] :=
  ⟨List.Pairwise.nil, rfl⟩

theorem Lists.step {t : UserOrder} {user : String} {place : OrderScene} {l : List OrderItemRef}
    (h : t.Lists user place l) (call : Call) :
    (t.step call).Lists user place (call.effect user place l) := by
  obtain ⟨hranked, rfl⟩ := h
  rw [Call.effect]
  split
  · next haddr => exact step_lists call haddr hranked
  · next haddr =>
      have hordered := ordered_congr (sceneRows_step (t := t) call haddr)
      rw [Lists, items, hordered]
      exact ⟨hranked, rfl⟩

theorem Lists.run {t : UserOrder} {user : String} {place : OrderScene} {l : List OrderItemRef}
    (h : t.Lists user place l) (calls : List Call) :
    (run UserOrder.step t calls).Lists user place (calls.foldl (Call.effect user place) l) := by
  induction calls generalizing t l with
  | nil => exact h
  | cons call calls ih => exact ih (h.step call)

/-- Over every run of calls the items of a scene are the list that the operations build; its keys
stay distinct.  A call leaves the rows of other lists alone, it keeps the order of the items it is
not about, and a moved item stands directly behind its anchor. -/
theorem items_run (calls : List Call) (user : String) (place : OrderScene) :
    let t := run UserOrder.step empty calls
    t.items user place = calls.foldl (Call.effect user place) [] ∧
      ((t.ordered user place).map UserOrderRow.orderKey).Nodup ∧
      ∀ call : Call,
        (¬call.Addresses user place →
          (t.step call).sceneRows user place = t.sceneRows user place) ∧
        ((t.step call).items user place).filter (· ∉ call.named) =
          (t.items user place).filter (· ∉ call.named) ∧
        ∀ moved after, call = .moveItem user place moved (some after) →
          moved ∈ t.items user place → after ∈ t.items user place → moved ≠ after →
            ∃ pre post, (t.step call).items user place = pre ++ after :: moved :: post := by
  intro t
  have hlists : t.Lists user place (calls.foldl (Call.effect user place) []) :=
    Lists.run empty_lists calls
  obtain ⟨hranked, hitems⟩ := hlists
  refine ⟨hitems, hranked.nodup_keys, fun call ↦ ⟨sceneRows_step call, ?_, ?_⟩⟩
  · have hstep := (Lists.step ⟨hranked, rfl⟩ call).2
    rw [hstep, Call.effect]
    split
    · exact call.filter_operation _
    · rfl
  · rintro moved after rfl hmoved hafter hne
    obtain ⟨pre, post, hmove⟩ := moveAfter_eq_append items_nodup hmoved hafter hne
    exact ⟨pre, post, (moveItem_some_lists hranked).2.trans hmove⟩

end UserOrder

end Zaowutai.Order
