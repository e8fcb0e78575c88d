import Mathlib.Data.Prod.Lex
import Mathlib.Data.String.Basic
import Zaowutai.Lib.Ranking

/-!
# User-defined order of the sidebar

The `user_order` table and the store over it.  A row's existence pins an item in
a scene of a user, and its `order_key` places it there.  Keys are unbounded
integers here.  The two timestamps of a row are left out, since no query reads
them.
-/

namespace Zaowutai.Order

open Zaowutai.Lib

inductive OrderScene where
  | pinned
  deriving DecidableEq, Repr

inductive OrderItemType where
  | conversation
  | team
  deriving DecidableEq, Repr

def OrderItemType.asStr : OrderItemType → String
  | conversation => "conversation"
  | team => "team"

structure OrderItemRef where
  itemType : OrderItemType
  itemId : String
  deriving DecidableEq, Repr

/-- A row; its `(item_type, item_id)` columns are kept together as a reference. -/
structure UserOrderRow where
  userId : String
  scene : OrderScene
  item : OrderItemRef
  orderKey : ℤ
  deriving DecidableEq, Repr

def UserOrderRow.primaryKey (row : UserOrderRow) : String × OrderScene × OrderItemRef :=
  (row.userId, row.scene, row.item)

/-- `WHERE user_id = ? AND scene = ?`. -/
def UserOrderRow.InScene (userId : String) (scene : OrderScene) (row : UserOrderRow) : Prop :=
  row.userId = userId ∧ row.scene = scene

instance (userId : String) (scene : OrderScene) :
    DecidablePred (UserOrderRow.InScene userId scene) :=
  fun _ ↦ inferInstanceAs (Decidable (_ ∧ _))

/-- The triple rows are ordered by.  Text compares by code point. -/
def UserOrderRow.position (row : UserOrderRow) : ℤ ×ₗ String ×ₗ String :=
  toLex (row.orderKey, toLex (row.item.itemType.asStr, row.item.itemId))

structure UserOrder where
  rows : List UserOrderRow
  keyed : rows.Pairwise fun row other ↦ row.primaryKey ≠ other.primaryKey

/-- Where a page of a scene ended. -/
structure PinnedCursor where
  orderKey : ℤ
  itemType : OrderItemType
  itemId : String
  deriving DecidableEq, Repr

inductive PinOutcome where
  | inserted
  | alreadyPinned
  deriving DecidableEq, Repr

inductive MoveOutcome where
  | moved
  | movedNotFound
  | afterNotFound
  deriving DecidableEq, Repr

inductive DbError where
  | notFound (message : String)
  deriving DecidableEq, Repr

def pinGap : ℤ := 1000

def rebalanceThreshold : ℤ := 16

namespace UserOrder

variable (t : UserOrder) (userId : String) (scene : OrderScene)

def empty : UserOrder := ⟨[], List.Pairwise.nil⟩

/-- `INSERT`, of a row whose primary key is free. -/
def insert (row : UserOrderRow) (hfree : ∀ other ∈ t.rows, row.primaryKey ≠ other.primaryKey) :
    UserOrder :=
  ⟨row :: t.rows, List.pairwise_cons.mpr ⟨hfree, t.keyed⟩⟩

/-- `DELETE … WHERE`. -/
def delete (p : UserOrderRow → Prop) [DecidablePred p] : UserOrder :=
  ⟨t.rows.filter fun row ↦ ¬p row, t.keyed.sublist List.filter_sublist⟩

def rekey (item : OrderItemRef) (orderKey : ℤ) (row : UserOrderRow) : UserOrderRow :=
  if row.primaryKey = (userId, scene, item) then { row with orderKey := orderKey } else row

@[simp] theorem primaryKey_rekey (item : OrderItemRef) (orderKey : ℤ) (row : UserOrderRow) :
    (rekey userId scene item orderKey row).primaryKey = row.primaryKey := by
  rw [rekey]
  split <;> rfl

/-- `UPDATE user_order SET order_key = ? WHERE` the row has the primary key. -/
def setOrderKey (item : OrderItemRef) (orderKey : ℤ) : UserOrder :=
  ⟨t.rows.map (rekey userId scene item orderKey),
    List.pairwise_map.mpr (t.keyed.imp fun h ↦ by simpa using h)⟩

/-- `SELECT … WHERE … ORDER BY order_key ASC, item_type ASC, item_id ASC`. -/
def select (p : UserOrderRow → Prop) [DecidablePred p] : List UserOrderRow :=
  (t.rows.filter p).insertionSort fun row other ↦ row.position ≤ other.position

def ordered : List UserOrderRow := t.select (UserOrderRow.InScene userId scene)

def items : List OrderItemRef := (t.ordered userId scene).map UserOrderRow.item

def After (after : Option PinnedCursor) (row : UserOrderRow) : Prop :=
  row.InScene userId scene ∧ ∀ cursor ∈ after,
    cursor.orderKey < row.orderKey ∨
      row.orderKey = cursor.orderKey ∧
        (cursor.itemType.asStr < row.item.itemType.asStr ∨
          row.item.itemType.asStr = cursor.itemType.asStr ∧ cursor.itemId < row.item.itemId)

instance (after : Option PinnedCursor) : DecidablePred (After userId scene after) :=
  fun _ ↦ inferInstanceAs (Decidable (_ ∧ ∀ _ ∈ _, _))

def listPinned (after : Option PinnedCursor) (limit : ℕ) : List UserOrderRow :=
  (t.select (After userId scene after)).take limit

def pinnedRefs : List OrderItemRef :=
  (t.rows.filter (UserOrderRow.InScene userId scene)).map UserOrderRow.item

def rowOrderKey (item : OrderItemRef) : Option ℤ :=
  (t.rows.find? fun row ↦ row.primaryKey = (userId, scene, item)).map UserOrderRow.orderKey

def minOrderKey : Option ℤ :=
  ((t.rows.filter (UserOrderRow.InScene userId scene)).map UserOrderRow.orderKey).min?

/-- The candidates for the successor of `after`: later in the order and not `moved`. -/
def Follows (afterKey : ℤ) (after moved : OrderItemRef) (row : UserOrderRow) : Prop :=
  row.InScene userId scene ∧
    (afterKey < row.orderKey ∨
      row.orderKey = afterKey ∧
        (after.itemType.asStr < row.item.itemType.asStr ∨
          row.item.itemType.asStr = after.itemType.asStr ∧ after.itemId < row.item.itemId)) ∧
    ¬(row.item.itemType = moved.itemType ∧ row.item.itemId = moved.itemId)

instance (afterKey : ℤ) (after moved : OrderItemRef) :
    DecidablePred (Follows userId scene afterKey after moved) :=
  fun _ ↦ inferInstanceAs (Decidable (_ ∧ _ ∧ _))

def successorKey (afterKey : ℤ) (after moved : OrderItemRef) : Option ℤ :=
  (t.select (Follows userId scene afterKey after moved)).head?.map UserOrderRow.orderKey

/-- Respace the keys of a scene to `pinGap, 2 * pinGap, …` in their current order. -/
def rebalanceScene : UserOrder :=
  (t.ordered userId scene).zipIdx.foldl
    (fun t entry ↦ t.setOrderKey userId scene entry.1.item ((entry.2 + 1) * pinGap)) t

def pin (item : OrderItemRef) : PinOutcome × UserOrder :=
  if hexists : ∃ row ∈ t.rows, row.primaryKey = (userId, scene, item) then (.alreadyPinned, t)
  else
    let orderKey := match t.minOrderKey userId scene with
      | some min => min - pinGap
      | none => pinGap
    (.inserted, t.insert ⟨userId, scene, item, orderKey⟩
      fun other hmem heq ↦ hexists ⟨other, hmem, heq.symm⟩)

def unpin (item : OrderItemRef) : Bool × UserOrder :=
  (t.rows.any fun row ↦ row.primaryKey = (userId, scene, item),
    t.delete fun row ↦ row.primaryKey = (userId, scene, item))

/-- The new key of `moved` and the table it is written to, which a rebalance may have rewritten.
`none` when the `after` anchor has no row. -/
def newKey (moved : OrderItemRef) : Option OrderItemRef → Except DbError (Option (ℤ × UserOrder))
  | none => .ok (some ((t.minOrderKey userId scene).getD pinGap - pinGap, t))
  | some after =>
      match t.rowOrderKey userId scene after with
      | none => .ok none
      | some left =>
          match t.successorKey userId scene left after moved with
          | none => .ok (some (left + pinGap, t))
          | some right =>
              if right - left ≥ rebalanceThreshold then
                .ok (some (left + (right - left).tdiv 2, t))
              else
                let t := t.rebalanceScene userId scene
                match t.rowOrderKey userId scene after with
                | none => .error (.notFound "after row vanished during rebalance")
                | some left =>
                    match t.successorKey userId scene left after moved with
                    | none => .ok (some (left + pinGap, t))
                    | some right => .ok (some (left + (right - left).tdiv 2, t))

/-- Move `moved` to the top, or directly after `after`.  An error rolls the transaction back. -/
def moveItem (moved : OrderItemRef) (after : Option OrderItemRef) :
    Except DbError MoveOutcome × UserOrder :=
  match t.rowOrderKey userId scene moved with
  | none => (.ok .movedNotFound, t)
  | some _ =>
      match t.newKey userId scene moved after with
      | .error e => (.error e, t)
      | .ok none => (.ok .afterNotFound, t)
      | .ok (some (newKey, t)) => (.ok .moved, t.setOrderKey userId scene moved newKey)

def removeItem (item : OrderItemRef) : UserOrder :=
  t.delete fun row ↦ row.userId = userId ∧ row.item = item

def removeItems (items : List OrderItemRef) : UserOrder :=
  if items.isEmpty then t else items.foldl (fun t item ↦ t.removeItem userId item) t

end UserOrder

inductive Call where
  | pin (userId : String) (scene : OrderScene) (item : OrderItemRef)
  | unpin (userId : String) (scene : OrderScene) (item : OrderItemRef)
  | moveItem (userId : String) (scene : OrderScene) (moved : OrderItemRef)
      (after : Option OrderItemRef)
  | removeItem (userId : String) (item : OrderItemRef)
  | removeItems (userId : String) (items : List OrderItemRef)

def UserOrder.step (t : UserOrder) : Call → UserOrder
  | .pin userId scene item => (t.pin userId scene item).2
  | .unpin userId scene item => (t.unpin userId scene item).2
  | .moveItem userId scene moved after => (t.moveItem userId scene moved after).2
  | .removeItem userId item => t.removeItem userId item
  | .removeItems userId items => t.removeItems userId items

end Zaowutai.Order
