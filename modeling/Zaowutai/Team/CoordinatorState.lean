import Mathlib.Data.List.Dedup
import Mathlib.Data.String.Basic
import Zaowutai.Lib.Table
import Zaowutai.Team.WorkModel

/-!
# The state of the work coordinator

A slot owns four lanes of queued intent ids and at most one active batch; the
intents themselves live in one table of the session.  Every operation of the
coordinator runs under its lock, so it is a function from a state to an
`Outcome`: the next state, the calls made on the run causality port in their
order, and the value returned.

Ids come from `generate_id`, an injective supply of which the state remembers
how many were drawn.
-/

namespace Zaowutai.Team

open Zaowutai.Lib

structure ActiveBatch where
  batch : WorkBatch
  turnId : Option String
  startedAtMs : Option ℤ
  deriving DecidableEq, Repr

structure SlotState where
  role : TeamRunTargetRole
  foreground : List String
  control : List String
  directed : List String
  background : List String
  active : Option ActiveBatch
  paused : Bool
  runtimeConstraint : RuntimeConstraint
  deliveryFailureCounts : Table String ℕ
  appliedMcpFingerprint : Option String
  pendingMcpFingerprint : Option String
  mcpRefreshInProgress : Bool
  removed : Bool

namespace SlotState

def new (role : TeamRunTargetRole) : SlotState where
  role := role
  foreground := []
  control := []
  directed := []
  background := []
  active := none
  paused := false
  runtimeConstraint := .starting 0
  deliveryFailureCounts := ∅
  appliedMcpFingerprint := none
  pendingMcpFingerprint := none
  mcpRefreshInProgress := false
  removed := false

def queue (slot : SlotState) : WorkPriority → List String
  | .foreground => slot.foreground
  | .control => slot.control
  | .directed => slot.directed
  | .background => slot.background

def modifyQueue (slot : SlotState) (priority : WorkPriority) (f : List String → List String) :
    SlotState :=
  match priority with
  | .foreground => { slot with foreground := f slot.foreground }
  | .control => { slot with control := f slot.control }
  | .directed => { slot with directed := f slot.directed }
  | .background => { slot with background := f slot.background }

def pushFront (slot : SlotState) (priority : WorkPriority) (intentId : String) : SlotState :=
  slot.modifyQueue priority fun ids ↦ intentId :: ids

def pushBack (slot : SlotState) (priority : WorkPriority) (intentId : String) : SlotState :=
  slot.modifyQueue priority fun ids ↦ ids ++ [intentId]

def queuedIds (slot : SlotState) : List String :=
  slot.foreground ++ slot.control ++ slot.directed ++ slot.background

def removeQueued (slot : SlotState) (intentId : String) : SlotState :=
  { slot with
    foreground := slot.foreground.filter (· ≠ intentId)
    control := slot.control.filter (· ≠ intentId)
    directed := slot.directed.filter (· ≠ intentId)
    background := slot.background.filter (· ≠ intentId) }

def removeAllQueued (slot : SlotState) (intentIds : List String) : SlotState :=
  intentIds.foldl removeQueued slot

def clearQueues (slot : SlotState) : SlotState :=
  { slot with foreground := [], directed := [], control := [], background := [] }

def activeIntentIds (slot : SlotState) : List String :=
  match slot.active with
  | some active => active.batch.intentIds
  | none => []

section Queues

variable (slot : SlotState) (priority other : WorkPriority) (f : List String → List String)
  (intentId : String) (intentIds : List String)

@[simp] theorem queue_new (role : TeamRunTargetRole) : (new role).queue priority = [] := by
  cases priority <;> rfl

@[simp] theorem queue_modifyQueue :
    (slot.modifyQueue priority f).queue other =
      if other = priority then f (slot.queue other) else slot.queue other := by
  cases priority <;> cases other <;> rfl

@[simp] theorem active_modifyQueue : (slot.modifyQueue priority f).active = slot.active := by
  cases priority <;> rfl

@[simp] theorem queue_removeQueued :
    (slot.removeQueued intentId).queue priority =
      (slot.queue priority).filter (· ≠ intentId) := by
  cases priority <;> rfl

@[simp] theorem queue_removeAllQueued :
    (slot.removeAllQueued intentIds).queue priority =
      (slot.queue priority).filter (· ∉ intentIds) := by
  induction intentIds generalizing slot with
  | nil => simp [removeAllQueued]
  | cons id ids ih =>
      have hstep : slot.removeAllQueued (id :: ids) = (slot.removeQueued id).removeAllQueued ids :=
        rfl
      rw [hstep, ih, queue_removeQueued, List.filter_filter]
      apply List.filter_congr
      intro x _
      by_cases hx : x = id <;> simp [hx]

@[simp] theorem queue_clearQueues : slot.clearQueues.queue priority = [] := by
  cases priority <;> rfl

theorem mem_queuedIds : intentId ∈ slot.queuedIds ↔ ∃ priority, intentId ∈ slot.queue priority := by
  simp only [queuedIds, List.mem_append]
  constructor
  · rintro (((h | h) | h) | h)
    · exact ⟨.foreground, h⟩
    · exact ⟨.control, h⟩
    · exact ⟨.directed, h⟩
    · exact ⟨.background, h⟩
  · rintro ⟨priority, h⟩
    cases priority <;> simp_all [queue]

theorem removeAllQueued_eq :
    slot.removeAllQueued intentIds =
      { slot with
        foreground := (slot.removeAllQueued intentIds).foreground
        control := (slot.removeAllQueued intentIds).control
        directed := (slot.removeAllQueued intentIds).directed
        background := (slot.removeAllQueued intentIds).background } := by
  induction intentIds generalizing slot with
  | nil => rfl
  | cons id ids ih => exact ih (slot.removeQueued id)

@[simp] theorem active_removeAllQueued : (slot.removeAllQueued intentIds).active = slot.active := by
  rw [removeAllQueued_eq]

end Queues

end SlotState

structure EnqueueLeaseRecord where
  lease : EnqueueLease
  binding : RunBinding
  deriving DecidableEq, Repr

structure CoordinatorState where
  slots : Table String SlotState
  intents : Table String WorkIntent
  enqueueLeases : Table String EnqueueLeaseRecord
  interruptedBatches : Table String BatchInterruptMetadata
  nextOperationId : ℕ
  generated : ℕ

structure Outcome (α : Type) where
  state : CoordinatorState
  calls : List PortCall
  result : α

/-- The coordinator of one session; `generateId k` is the `k`-th id that `generate_id` returns. -/
structure SlotWorkCoordinator where
  sessionGeneration : String
  generateId : ℕ → String
  generateId_injective : Function.Injective generateId

def u64Max : ℕ := 2 ^ 64 - 1

namespace CoordinatorState

def empty : CoordinatorState := ⟨∅, ∅, ∅, ∅, 0, 0⟩

def slotOrNew (s : CoordinatorState) (slotId : String) (role : TeamRunTargetRole) : SlotState :=
  (s.slots.lookup slotId).getD (.new role)

def setSlot (s : CoordinatorState) (slotId : String) (slot : SlotState) : CoordinatorState :=
  { s with slots := s.slots.insert slotId slot }

def modifySlot (s : CoordinatorState) (slotId : String) (f : SlotState → SlotState) :
    CoordinatorState :=
  { s with slots := s.slots.modify slotId f }

def restate (s : CoordinatorState) (f : String → WorkIntent → WorkIntentState) :
    CoordinatorState :=
  { s with intents := s.intents.mapValues fun id intent ↦ { intent with state := f id intent } }

def setStates (s : CoordinatorState) (intentIds : List String) (state : WorkIntentState) :
    CoordinatorState :=
  s.restate fun id intent ↦ if id ∈ intentIds then state else intent.state

def insertIntent (s : CoordinatorState) (intent : WorkIntent) : CoordinatorState :=
  { s with intents := s.intents.insert intent.intentId intent }

def slotIds (s : CoordinatorState) : List String := s.slots.keys.insertionSort (· ≤ ·)

def activeBatch (s : CoordinatorState) (slotId : String) : Option ActiveBatch :=
  (s.slots.lookup slotId).bind SlotState.active

def teamRunOf (s : CoordinatorState) (intentId : String) : Option String :=
  (s.intents.lookup intentId).bind WorkIntent.teamRunId

def messageOf (s : CoordinatorState) (intentId : String) : Option String :=
  (s.intents.lookup intentId).bind WorkIntent.mailboxMessageId

def nextOperation (s : CoordinatorState) : ℕ := min (s.nextOperationId + 1) u64Max

end CoordinatorState

/-- `if !ids.contains(id) { ids.push(id) }`. -/
def pushNew (ids : List String) (id : String) : List String :=
  if id ∈ ids then ids else ids ++ [id]

theorem mem_pushNew {ids : List String} {id x : String} : x ∈ pushNew ids id ↔ x ∈ ids ∨ x = id := by
  unfold pushNew
  split
  · next h => exact ⟨Or.inl, fun hx ↦ hx.elim (fun hx ↦ hx) fun hx ↦ hx ▸ h⟩
  · simp

theorem nodup_pushNew {ids : List String} (h : ids.Nodup) (id : String) : (pushNew ids id).Nodup := by
  unfold pushNew
  split
  · exact h
  · next hid => exact List.nodup_append.mpr ⟨h, List.nodup_singleton id, by aesop⟩

theorem mem_foldl_pushNew {ids more : List String} {x : String} :
    x ∈ more.foldl pushNew ids ↔ x ∈ ids ∨ x ∈ more := by
  induction more generalizing ids with
  | nil => simp
  | cons id more ih => rw [List.foldl_cons, ih, mem_pushNew, List.mem_cons, or_assoc]

theorem nodup_foldl_pushNew {ids : List String} (h : ids.Nodup) (more : List String) :
    (more.foldl pushNew ids).Nodup := by
  induction more generalizing ids with
  | nil => exact h
  | cons id more ih => exact ih (nodup_pushNew h id)

theorem prefix_foldl_pushNew (ids more : List String) : ids <+: more.foldl pushNew ids := by
  induction more generalizing ids with
  | nil => exact List.prefix_rfl
  | cons id more ih =>
      refine List.IsPrefix.trans ?_ (ih (pushNew ids id))
      unfold pushNew
      split
      · exact List.prefix_rfl
      · exact List.prefix_append ids [id]

/-- The distinct strings of a list in increasing order, as a `BTreeSet` iterates them. -/
def sortedDistinct (ids : List String) : List String := ids.dedup.insertionSort (· ≤ ·)

@[simp] theorem mem_sortedDistinct {ids : List String} {id : String} :
    id ∈ sortedDistinct ids ↔ id ∈ ids := by
  simp [sortedDistinct, List.mem_insertionSort]

end Zaowutai.Team
