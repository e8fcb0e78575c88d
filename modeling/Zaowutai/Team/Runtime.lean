import Zaowutai.Team.Retire

/-!
# Slots and their runtimes

Pausing a slot, constraining it by the state of its member runtime, gating it
for a runtime restart, and refreshing the tools of the runtime.
-/

namespace Zaowutai.Team

open Zaowutai.Lib

/-- The state an intent gets from a `Failed` or `SessionStopped` runtime: background work of a
failed runtime is queued again. -/
def constrainedState (constraint : RuntimeConstraint) (intent : WorkIntent) : WorkIntentState :=
  match constraint with
  | .failed _ classification =>
      if intent.teamRunId.isNone then .queued else .failed classification
  | .sessionStopped => .cancelled "session_stopped"
  | _ => intent.state

def RuntimeConstraint.endsWork : RuntimeConstraint → Bool
  | failed _ _ | sessionStopped => true
  | _ => false

namespace SlotState

variable (slot : SlotState) (fingerprint : String)

def deferRefresh : SlotState :=
  { slot with pendingMcpFingerprint := some fingerprint, mcpRefreshInProgress := false }

def completeRefresh : SlotState :=
  { slot with
    appliedMcpFingerprint := some fingerprint
    pendingMcpFingerprint := slot.pendingMcpFingerprint.filter (· ≠ fingerprint)
    mcpRefreshInProgress := false }

def releaseRefresh : SlotState :=
  if slot.pendingMcpFingerprint = some fingerprint then
    { slot with mcpRefreshInProgress := false }
  else slot

def settleRefresh : SlotState :=
  if slot.pendingMcpFingerprint = some fingerprint then
    { slot with pendingMcpFingerprint := none, mcpRefreshInProgress := false }
  else slot

end SlotState

namespace CoordinatorState

variable (s : CoordinatorState)

def liveIntents (slotId : String) : List WorkIntent :=
  s.intents.values.filter fun intent ↦ intent.slotId = slotId ∧ intent.state.isTerminal = false

def restateSlot (slotId : String) (constraint : RuntimeConstraint) : CoordinatorState :=
  s.restate fun _ intent ↦
    if intent.slotId = slotId ∧ intent.state.isTerminal = false then
      constrainedState constraint intent
    else intent.state

end CoordinatorState

namespace SlotWorkCoordinator

variable (s : CoordinatorState)

def rebuiltSlot (slotId : String) (constraint : RuntimeConstraint) : SlotState :=
  let requeued := (s.liveIntents slotId).filter fun intent ↦
    constrainedState constraint intent = .queued
  requeued.foldl (fun slot intent ↦ slot.pushBack intent.priority intent.intentId)
    { (s.slotOrNew slotId .teammate).clearQueues with
      runtimeConstraint := constraint
      active := none }

def pauseSlot (slotId : String) : Outcome PauseWorkResult :=
  let slot := { s.slotOrNew slotId .teammate with paused := true }
  let s := s.setSlot slotId slot
  ⟨s, s.publishSlotWork slotId,
    ⟨slot.active.map fun active ↦ ⟨active.batch, active.turnId⟩, s.snapshotOf slotId slot⟩⟩

def setRuntimeConstraint (slotId : String) (constraint : RuntimeConstraint) :
    Outcome RuntimeConstraintUpdate :=
  if constraint.endsWork then
    let ended := (s.liveIntents slotId).filter fun intent ↦
      constrainedState constraint intent ≠ .queued
    let slot := rebuiltSlot s slotId constraint
    let s := (s.restateSlot slotId constraint).setSlot slotId slot
    let runIds := ended.filterMap WorkIntent.teamRunId
    ⟨s, s.publishRunSummaries runIds ++ s.publishSlotWork slotId,
      ⟨s.snapshotOf slotId slot, ended.filterMap WorkIntent.mailboxMessageId,
        s.runSummaries runIds⟩⟩
  else
    let slot := { s.slotOrNew slotId .teammate with runtimeConstraint := constraint }
    let s := s.setSlot slotId slot
    ⟨s, s.publishSlotWork slotId, ⟨s.snapshotOf slotId slot, [], []⟩⟩

/-- `begin_runtime_restart_inner`; an MCP restart is the one that allows queued work. -/
def beginRuntimeRestart (slotId : String) (allowQueued : Bool) :
    Outcome (Except RuntimeRestartRejection RuntimeRestartGate) :=
  let slot := s.slotOrNew slotId .teammate
  let s := s.setSlot slotId slot
  if slot.active.isSome || (!allowQueued && !slot.queuedIds.isEmpty) then ⟨s, [], .error .busy⟩
  else match slot.runtimeConstraint with
    | .removing _ => ⟨s, [], .error .removing⟩
    | .sessionStopped => ⟨s, [], .error .sessionStopped⟩
    | previousConstraint =>
        let operationId := s.nextOperation
        let s := { s with nextOperationId := operationId }.setSlot slotId
          { slot with runtimeConstraint := .starting operationId }
        ⟨s, s.publishSlotWork slotId, .ok ⟨operationId, previousConstraint⟩⟩

def abortRuntimeRestart (slotId : String) (gate : RuntimeRestartGate) : Outcome Unit :=
  match s.slots.lookup slotId with
  | none => ⟨s, [], ()⟩
  | some slot =>
      if slot.runtimeConstraint ≠ .starting gate.operationId then ⟨s, [], ()⟩
      else
        let s := s.setSlot slotId { slot with runtimeConstraint := gate.previousConstraint }
        ⟨s, s.publishSlotWork slotId, ()⟩

def requestMcpRefresh (slotId fingerprint : String) : Outcome McpRefreshDisposition :=
  let slot := s.slotOrNew slotId .teammate
  if slot.appliedMcpFingerprint = some fingerprint ∨
      slot.pendingMcpFingerprint = some fingerprint then
    ⟨s.setSlot slotId slot, [], .unchanged⟩
  else if slot.active.isSome || !slot.queuedIds.isEmpty || slot.runtimeConstraint != .ready then
    ⟨s.setSlot slotId (slot.deferRefresh fingerprint), [], .deferred⟩
  else ⟨s.setSlot slotId slot, [], .restartNow⟩

def deferMcpRefresh (slotId fingerprint : String) : Outcome Unit :=
  let slot := s.slotOrNew slotId .teammate
  if slot.appliedMcpFingerprint ≠ some fingerprint then
    ⟨s.setSlot slotId (slot.deferRefresh fingerprint), [], ()⟩
  else ⟨s.setSlot slotId slot, [], ()⟩

def claimPendingMcpRefresh (slotId : String) : Outcome (Option String) :=
  match s.slots.lookup slotId with
  | none => ⟨s, [], none⟩
  | some slot =>
      if slot.active.isSome || slot.mcpRefreshInProgress then ⟨s, [], none⟩
      else match slot.pendingMcpFingerprint with
        | none => ⟨s, [], none⟩
        | some fingerprint =>
            ⟨s.setSlot slotId { slot with mcpRefreshInProgress := true }, [], some fingerprint⟩

def completeMcpRefresh (slotId fingerprint : String) : Outcome Unit :=
  ⟨s.modifySlot slotId fun slot ↦ slot.completeRefresh fingerprint, [], ()⟩

def releaseMcpRefresh (slotId fingerprint : String) : Outcome Unit :=
  ⟨s.modifySlot slotId fun slot ↦ slot.releaseRefresh fingerprint, [], ()⟩

def settleMcpRefreshClaim (slotId fingerprint : String) : Outcome Unit :=
  ⟨s.modifySlot slotId fun slot ↦ slot.settleRefresh fingerprint, [], ()⟩

end SlotWorkCoordinator

end Zaowutai.Team
