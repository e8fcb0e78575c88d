import Zaowutai.Team.CoordinatorState

/-!
# Snapshots and run summaries

What the coordinator tells the rest of the session: the phase of a slot, and
for each team run the counts of its intents, batches and leases.
-/

namespace Zaowutai.Team

open Zaowutai.Lib

namespace CoordinatorState

variable (s : CoordinatorState)

def slotPhase (slot : SlotState) : SlotPhase :=
  if slot.paused then .paused
  else if (slot.active.bind ActiveBatch.turnId).isSome then .running
  else if slot.active.isSome then .starting
  else if slot.runtimeConstraint ≠ .ready then .blocked
  else if slot.queuedIds ≠ [] then .queued
  else .idle

def snapshotOf (slotId : String) (slot : SlotState) : SlotWorkSnapshot where
  slotId := slotId
  role := slot.role
  state := slotPhase slot
  queuedForegroundCount := slot.foreground.length
  queuedBackgroundCount := slot.directed.length + slot.control.length + slot.background.length
  activeBatch := slot.active.map ActiveBatch.batch
  activeTurnId := slot.active.bind ActiveBatch.turnId
  activeTurnStartedAtMs := slot.active.bind ActiveBatch.startedAtMs
  runtimeConstraint := slot.runtimeConstraint
  teamRunId := (slot.active.bind fun active ↦ active.batch.teamRunIds.head?).or
    (slot.queuedIds.findSome? s.teamRunOf)

def slotSnapshot (slotId : String) : Option SlotWorkSnapshot :=
  (s.slots.lookup slotId).map (s.snapshotOf slotId)

def runIntents (teamRunId : String) : List WorkIntent :=
  s.intents.values.filter fun intent ↦ intent.teamRunId = some teamRunId

def runLeases (teamRunId : String) : List EnqueueLease :=
  (s.enqueueLeases.values.map EnqueueLeaseRecord.lease).filter fun lease ↦
    lease.teamRunId = some teamRunId

def isPaused (slotId : String) : Bool :=
  (s.slots.lookup slotId).elim false SlotState.paused

def runSummary (teamRunId : String) : RunWorkSummary :=
  let associated := s.runIntents teamRunId
  let queued := associated.filter fun intent ↦ intent.state = .queued
  let slotIds := sortedDistinct <|
    associated.map WorkIntent.slotId ++ (s.runLeases teamRunId).map EnqueueLease.slotId
  { teamRunId := teamRunId
    queuedIntentCount := queued.length
    startingBatchCount :=
      (associated.filterMap fun intent ↦ intent.state.startingBatch).dedup.length
    runningBatchCount :=
      (associated.filterMap fun intent ↦ intent.state.runningBatch).dedup.length
    activeEnqueueLeaseCount := (s.runLeases teamRunId).length
    pausedIntentCount := (queued.filter fun intent ↦ s.isPaused intent.slotId).length
    failedIntentCount := (associated.filter fun intent ↦ intent.state.isFailed).length
    slots := slotIds.filterMap s.slotSnapshot }

def runSummaries (teamRunIds : List String) : List RunWorkSummary :=
  (sortedDistinct teamRunIds).map s.runSummary

def allRunIds : List String :=
  sortedDistinct <| s.intents.values.filterMap WorkIntent.teamRunId ++
    s.enqueueLeases.values.filterMap fun record ↦ record.lease.teamRunId

/-- `publish_run_summaries` of the given runs, as port calls. -/
def publishRunSummaries (teamRunIds : List String) : List PortCall :=
  (s.runSummaries teamRunIds).map .applyWorkSummary

/-- `publish_slot_work_snapshot`; a slot that does not exist publishes nothing. -/
def publishSlotWork (slotId : String) : List PortCall :=
  (s.slotSnapshot slotId).toList.map .publishSlotWork

end CoordinatorState

end Zaowutai.Team
