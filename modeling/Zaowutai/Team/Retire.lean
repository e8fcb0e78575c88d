import Zaowutai.Team.Claim

/-!
# Retiring intents

The operations that bring intents to a terminal state: a batch that completed,
failed, was cancelled or interrupted, queued work that is discarded, a run that
is cancelled, signals that are settled, a slot that is removed and a session
that stops.
-/

namespace Zaowutai.Team

open Zaowutai.Lib

def maxMessageDeliveryFailures : ℕ := 3

def u8Max : ℕ := 2 ^ 8 - 1

namespace SlotState

def clearFailures (slot : SlotState) (messageIds : List String) : SlotState :=
  { slot with deliveryFailureCounts := slot.deliveryFailureCounts.eraseAll messageIds }

/-- The batch is over: it is given up, the listed intents leave the lanes and the messages
forget their delivery failures. -/
def finish (slot : SlotState) (intentIds messageIds : List String) : SlotState :=
  { slot.removeAllQueued intentIds with active := none }.clearFailures messageIds

def interrupt (slot : SlotState) (messageIds : List String) : SlotState :=
  { slot with active := none }.clearFailures messageIds

def remove (slot : SlotState) : SlotState :=
  { slot.clearQueues with active := none, removed := true }

def stop (slot : SlotState) : SlotState :=
  { slot.clearQueues with active := none, runtimeConstraint := .sessionStopped }

def countFailure (acc : SlotState × List String) (messageId : String) :
    SlotState × List String :=
  let (slot, exhausted) := acc
  let count := min ((slot.deliveryFailureCounts.lookup messageId).getD 0 + 1) u8Max
  ({ slot with deliveryFailureCounts := slot.deliveryFailureCounts.insert messageId count },
    if maxMessageDeliveryFailures ≤ count then exhausted ++ [messageId] else exhausted)

end SlotState

/-- What retiring a batch means for the retry counters of its messages. -/
inductive DeliveryOutcome
  | notFailed
  | failed
  deriving DecidableEq, Repr

namespace SlotWorkCoordinator

variable (c : SlotWorkCoordinator) (s : CoordinatorState)

def observedIntent (batch : WorkBatch) (slotId : String) (intent : WorkIntent) : Bool :=
  intent.slotId == slotId && intent.mailboxMessageId.any (· ∈ batch.observedMessageIds) &&
    !intent.state.isTerminal

/-- The intents that a completion of the batch makes `Completed`. -/
def completedIntents (batch : WorkBatch) (slotId : String) : List WorkIntent :=
  s.intents.values.filter fun intent ↦
    intent.intentId ∈ batch.intentIds ∨ observedIntent batch slotId intent

def ackMessages (batch : WorkBatch) : List String :=
  batch.observedMessageIds.foldl pushNew batch.mailboxMessageIds

def completeBatchWithAck (batch : WorkBatch) : Outcome BatchCompletionResult :=
  match s.activeBatch batch.slotId with
  | none => ⟨s, [], ⟨.staleOwner, [], []⟩⟩
  | some active =>
      if !c.isCurrentBatch s batch then ⟨s, [], ⟨.staleOwner, [], []⟩⟩
      else
        let completed := completedIntents s active.batch batch.slotId
        let ids := active.batch.intentIds ++ completed.map WorkIntent.intentId
        let teamRunIds :=
          (completed.filterMap WorkIntent.teamRunId).foldl pushNew active.batch.teamRunIds
        let ack := ackMessages active.batch
        let s := (s.setStates ids .completed).modifySlot batch.slotId
          fun slot ↦ slot.finish ids ack
        ⟨s, s.publishRunSummaries teamRunIds ++ s.publishSlotWork batch.slotId,
          ⟨.committed, ack, teamRunIds⟩⟩

def releaseSlot (slot : SlotState) (batch : WorkBatch) (delivery : DeliveryOutcome) :
    SlotState × List String :=
  let slot := { slot with active := none }
  match delivery with
  | .notFailed => (slot.clearFailures batch.mailboxMessageIds, [])
  | .failed =>
      let (slot, exhausted) := batch.mailboxMessageIds.foldl SlotState.countFailure (slot, [])
      ({ slot with paused := slot.paused || !exhausted.isEmpty }, exhausted)

def terminalizeBatch (batch : WorkBatch) (terminal : WorkIntentState)
    (delivery : DeliveryOutcome) : Outcome BatchFailureResult :=
  match s.slots.lookup batch.slotId with
  | none => ⟨s, [], ⟨.staleOwner, []⟩⟩
  | some slot =>
      if !c.isCurrentBatch s batch then ⟨s, [], ⟨.staleOwner, []⟩⟩
      else
        let (slot, exhausted) := releaseSlot slot batch delivery
        let s := (s.setStates batch.intentIds terminal).setSlot batch.slotId slot
        ⟨s, s.publishRunSummaries batch.teamRunIds ++ s.publishSlotWork batch.slotId,
          ⟨.committed, exhausted⟩⟩

def failBatch (batch : WorkBatch) (classification : String) : Outcome BatchFailureResult :=
  c.terminalizeBatch s batch (.failed classification) .failed

def cancelBatch (batch : WorkBatch) (classification : String) : Outcome CommitResult :=
  let outcome := c.terminalizeBatch s batch (.cancelled classification) .notFailed
  ⟨outcome.state, outcome.calls, outcome.result.commitResult⟩

def interruptBatch (batch : WorkBatch) (reason : Option String) (replacementMessageId : String) :
    Outcome InterruptBatchResult :=
  if c.isCurrentBatch s batch then
    let s := (s.setStates batch.intentIds (.cancelled "lead_interrupted")).modifySlot
      batch.slotId fun slot ↦ slot.interrupt batch.mailboxMessageIds
    let s := { s with interruptedBatches :=
      s.interruptedBatches.insert batch.batchId ⟨reason, replacementMessageId⟩ }
    ⟨s, s.publishRunSummaries batch.teamRunIds ++ s.publishSlotWork batch.slotId,
      ⟨.committed, batch.mailboxMessageIds⟩⟩
  else ⟨s, [], ⟨.staleOwner, []⟩⟩

def takeInterruptMetadata (batchId : String) : Outcome (Option BatchInterruptMetadata) :=
  ⟨{ s with interruptedBatches := s.interruptedBatches.erase batchId }, [],
    s.interruptedBatches.lookup batchId⟩

/-- `is_active_batch`: the batch owns its slot and runs the given turn. -/
def isActiveBatch (batch : WorkBatch) (turnId : Option String) : Bool :=
  c.isCurrentBatch s batch && (s.activeBatch batch.slotId).any fun active ↦
    active.turnId == turnId

def isDiscarded (retainedMessageId intentId : String) : Bool :=
  (s.intents.lookup intentId).any fun intent ↦
    intent.mailboxMessageId != some retainedMessageId && intent.source.priority != .control

def discardQueuedExcept (slotId retainedMessageId : String) : Outcome (List String) :=
  let queuedIds := (s.slots.lookup slotId).elim [] SlotState.queuedIds
  let discarded := queuedIds.filter (isDiscarded s retainedMessageId)
  let messageIds := discarded.filterMap s.messageOf
  let s := (s.setStates discarded (.cancelled "lead_interrupt_discarded")).modifySlot slotId
    fun slot ↦ slot.removeAllQueued discarded
  ⟨s, s.publishSlotWork slotId, messageIds⟩

def batchesOfRun (teamRunId : String) : List (String × ActiveBatch) :=
  s.slotIds.filterMap fun slotId ↦ (s.activeBatch slotId).bind fun active ↦
    if active.batch.intentIds.any fun id ↦ s.teamRunOf id == some teamRunId then
      some (slotId, active)
    else none

def priorityOf (intentId : String) : Option WorkPriority :=
  (s.intents.lookup intentId).map WorkIntent.priority

def requeueFront (slot : SlotState) (intentId : String) : SlotState :=
  (priorityOf s intentId).elim slot fun priority ↦ slot.pushFront priority intentId

def cancelActive (teamRunId : String) (s : CoordinatorState) (entry : String × ActiveBatch) :
    CoordinatorState :=
  let (slotId, active) := entry
  let cancelled := active.batch.intentIds.filter fun id ↦ s.teamRunOf id = some teamRunId
  let retained := active.batch.intentIds.filter fun id ↦ s.teamRunOf id ≠ some teamRunId
  let s := (s.setStates cancelled (.cancelled "run_cancelled")).setStates retained .queued
  s.modifySlot slotId fun slot ↦
    retained.reverse.foldl (requeueFront s) { slot with active := none }

def cancelQueued (s : CoordinatorState) (intent : WorkIntent) : CoordinatorState :=
  (s.setStates [intent.intentId] (.cancelled "run_cancelled")).modifySlot intent.slotId
    fun slot ↦ slot.removeQueued intent.intentId

def cancelRun (teamRunId : String) : Outcome CancelRunWorkResult :=
  let entries := batchesOfRun s teamRunId
  let targets := entries.map fun e ↦ ⟨e.2.batch, e.2.turnId⟩
  let activeIds := (entries.flatMap fun e ↦ e.2.batch.intentIds).filter fun id ↦
    s.teamRunOf id = some teamRunId
  let s := entries.foldl (cancelActive teamRunId) s
  let queued := (s.runIntents teamRunId).filter fun intent ↦ intent.state = .queued
  let messageIds :=
    activeIds.filterMap s.messageOf ++ queued.filterMap WorkIntent.mailboxMessageId
  let s := queued.foldl cancelQueued s
  let s := { s with enqueueLeases :=
    s.enqueueLeases.eraseAll ((s.runLeases teamRunId).map EnqueueLease.leaseId) }
  ⟨s, [.applyWorkSummary (s.runSummary teamRunId)], ⟨targets, messageIds, s.runSummary teamRunId⟩⟩

def isSignal (slotId intentId : String) : Bool :=
  (s.intents.lookup intentId).any fun intent ↦
    intent.slotId = slotId ∧ intent.mailboxMessageId = none ∧ intent.state = .queued

def completeSignals (slotId : String) (intentIds : List String) : Outcome CommitResult :=
  if intentIds.all (isSignal s slotId) then
    let runIds := intentIds.filterMap s.teamRunOf
    let s := (s.setStates intentIds .completed).modifySlot slotId fun slot ↦
      slot.removeAllQueued intentIds
    ⟨s, s.publishRunSummaries runIds, .committed⟩
  else ⟨s, [], .rejected⟩

def createdBefore (a b : WorkIntent) : Prop :=
  a.createdAtMs < b.createdAtMs ∨ a.createdAtMs = b.createdAtMs ∧ a.intentId ≤ b.intentId

instance : DecidableRel createdBefore := fun a b ↦ by unfold createdBefore; infer_instance

/-- The intents that `remove_slot` cancels: the active batch, the lanes, and whatever else of
the slot is not terminal, oldest first. -/
def removedIntentIds (slotId : String) : List String :=
  let ordered := (s.slots.lookup slotId).elim [] fun slot ↦
    slot.activeIntentIds ++ slot.queuedIds
  let remaining := s.intents.values.filter fun intent ↦
    intent.slotId = slotId ∧ intent.state.isTerminal = false ∧ intent.intentId ∉ ordered
  ordered ++ (remaining.insertionSort createdBefore).map WorkIntent.intentId

def removeSlot (slotId : String) : Outcome RemoveWorkResult :=
  let target := (s.activeBatch slotId).map fun active ↦ ⟨active.batch, active.turnId⟩
  let ids := removedIntentIds s slotId
  let messageIds := ids.filterMap s.messageOf
  let runIds := ids.filterMap s.teamRunOf
  let s := (s.setStates ids (.cancelled "slot_removed")).modifySlot slotId SlotState.remove
  ⟨s, s.publishRunSummaries runIds, ⟨target, messageIds, s.runSummaries runIds⟩⟩

def cancelAll (s : CoordinatorState) : CoordinatorState :=
  s.restate fun _ intent ↦
    if intent.state.isTerminal then intent.state else .cancelled "session_stopped"

def stop : Outcome (List RunWorkSummary) :=
  let runIds := s.allRunIds
  let s := cancelAll s
  let s := { s with slots := s.slots.mapValues fun _ ↦ SlotState.stop, enqueueLeases := ∅ }
  ⟨s, s.publishRunSummaries runIds, s.runSummaries runIds⟩

end SlotWorkCoordinator

end Zaowutai.Team
