import Zaowutai.Team.CoordinatorSnapshot

/-!
# Claiming and running a batch

`next` moves the head of the first non-empty lane into the active batch of the
slot.  The batch is then started, observed by the tools of the running turn,
or given back to its lane.
-/

namespace Zaowutai.Team

open Zaowutai.Lib

namespace CoordinatorState

variable (s : CoordinatorState)

def isIsolated (intentId : String) : Bool :=
  (s.intents.lookup intentId).any fun intent ↦ intent.source.isIsolated

def selectMessageIntents : List String → List String
  | [] => []
  | head :: rest =>
      if s.isIsolated head then [head] else head :: rest.takeWhile fun id ↦ !s.isIsolated id

end CoordinatorState

/-- The rows that are not original rows of the batch become observed ones, once each. -/
def WorkBatch.observe (batch : WorkBatch) (messageIds : List String) : WorkBatch :=
  { batch with
    observedMessageIds := messageIds.foldl
      (fun observed id ↦ if id ∈ batch.mailboxMessageIds then observed else pushNew observed id)
      batch.observedMessageIds }

namespace SlotState

variable (slot : SlotState)

def observe (messageIds : List String) : SlotState :=
  { slot with active := slot.active.map fun active ↦
      { active with batch := active.batch.observe messageIds } }

def start (turnId : String) (now : ℤ) : SlotState :=
  { slot with active := slot.active.map fun active ↦
      { active with turnId := some turnId, startedAtMs := some now } }

def giveBack (batch : WorkBatch) : SlotState :=
  batch.intentIds.reverse.foldl (fun slot id ↦ slot.pushFront batch.highestPriority id)
    { slot with active := none }

def selectedPriority : Option WorkPriority :=
  [.foreground, .control, .directed, .background].find? fun priority ↦
    !(slot.queue priority).isEmpty

end SlotState

namespace SlotWorkCoordinator

variable (c : SlotWorkCoordinator) (s : CoordinatorState)

def claimBatch (slotId : String) (priority : WorkPriority) (intentIds : List String) :
    WorkBatch where
  batchId := c.generateId s.generated
  sessionGeneration := c.sessionGeneration
  slotId := slotId
  intentIds := intentIds
  mailboxMessageIds := intentIds.filterMap s.messageOf
  observedMessageIds := []
  highestPriority := priority
  teamRunIds := (intentIds.filterMap s.teamRunOf).foldl pushNew []
  operationId := s.nextOperation
  isCommand := intentIds.head?.any fun id ↦
    (s.intents.lookup id).any fun intent ↦ intent.source = .userCommand

def claimed (slotId : String) (slot : SlotState) (batch : WorkBatch) : CoordinatorState :=
  let slot := { slot.removeAllQueued batch.intentIds with active := some ⟨batch, none, none⟩ }
  let s := (s.setStates batch.intentIds (.starting batch.batchId batch.operationId)).setSlot
    slotId slot
  { s with nextOperationId := s.nextOperation, generated := s.generated + 1 }

def next (slotId : String) : Outcome ReconcileDecision :=
  match s.slots.lookup slotId with
  | none => ⟨s, [], .quiescent⟩
  | some slot =>
      if slot.active.isSome then ⟨s, [], .waitingForCompletion⟩
      else if slot.runtimeConstraint ≠ .ready then ⟨s, [], .blocked slot.runtimeConstraint⟩
      else if slot.paused then ⟨s, [], .quiescent⟩
      else match slot.selectedPriority with
        | none => ⟨s, [], .quiescent⟩
        | some priority =>
            let queuedIds := slot.queue priority
            let messageIds := queuedIds.filter fun id ↦ (s.messageOf id).isSome
            if messageIds.isEmpty then ⟨s, [], .settleSignals queuedIds⟩
            else
              let batch := c.claimBatch s slotId priority (s.selectMessageIntents messageIds)
              let s := claimed s slotId slot batch
              ⟨s, s.publishRunSummaries batch.teamRunIds ++ s.publishSlotWork slotId,
                .claim batch⟩

/-- `is_current_batch`: the batch owns the turn of its slot. -/
def isCurrentBatch (batch : WorkBatch) : Bool :=
  batch.sessionGeneration == c.sessionGeneration &&
    (s.activeBatch batch.slotId).any fun active ↦
      active.batch.batchId == batch.batchId && active.batch.operationId == batch.operationId &&
        active.batch.sessionGeneration == batch.sessionGeneration

def activeBatchId (slotId : String) : Option String :=
  (s.activeBatch slotId).map fun active ↦ active.batch.batchId

def observeMessages (slotId expectedBatchId : String) (messageIds : List String) :
    Outcome ObserveMessagesResult :=
  match s.activeBatch slotId with
  | none => ⟨s, [], ⟨none, 0⟩⟩
  | some active =>
      if active.batch.batchId ≠ expectedBatchId then ⟨s, [], ⟨none, 0⟩⟩
      else
        let batch := active.batch.observe messageIds
        ⟨s.modifySlot slotId fun slot ↦ slot.observe messageIds, [],
          ⟨some batch.batchId,
            batch.observedMessageIds.length - active.batch.observedMessageIds.length⟩⟩

def isBatchCancelled (batch : WorkBatch) : Bool :=
  batch.intentIds.all fun id ↦ (s.intents.lookup id).any fun intent ↦ intent.state.isCancelled

def markStarted (batch : WorkBatch) (turnId : String) (now : ℤ) : Outcome StartCommitResult :=
  if c.isCurrentBatch s batch then
    let cancelImmediately := (s.slots.lookup batch.slotId).any fun slot ↦
      slot.paused || slot.runtimeConstraint != .ready
    let s := (s.setStates batch.intentIds
      (.running batch.batchId batch.operationId turnId)).modifySlot batch.slotId
        fun slot ↦ slot.start turnId now
    ⟨s, s.publishRunSummaries batch.teamRunIds ++ s.publishSlotWork batch.slotId,
      if cancelImmediately then .cancelImmediately else .accepted⟩
  else if isBatchCancelled s batch then ⟨s, [], .cancelImmediately⟩
  else ⟨s, [], .staleOwner⟩

def retryStart (batch : WorkBatch) : Outcome CommitResult :=
  if c.isCurrentBatch s batch then
    let s := (s.setStates batch.intentIds .queued).modifySlot batch.slotId
      fun slot ↦ slot.giveBack batch
    ⟨s, s.publishRunSummaries batch.teamRunIds ++ s.publishSlotWork batch.slotId, .committed⟩
  else ⟨s, [], .staleOwner⟩

end SlotWorkCoordinator

end Zaowutai.Team
