import Zaowutai.Team.CoordinatorSnapshot

/-!
# Enqueueing and reconciliation

Work enters a slot in two ways.  A caller acquires a lease, writes the mailbox
row and commits; or the event loop reads the unread rows of the slot and
creates a recovery intent for each row that nobody owns.
-/

namespace Zaowutai.Team

open Zaowutai.Lib

structure PortAnswers where
  bindEnqueue : EnqueueRequest → RunBinding
  bindSystemEnqueue : EnqueueRequest → RunBinding

def validateEnqueueConstraint (slotId : String) (slot : SlotState) : Except TeamError Unit :=
  if slot.removed then .error (.invalidRequest s!"Team slot was removed: {slotId}")
  else match slot.runtimeConstraint with
    | .ready | .starting _ => .ok ()
    | .failed _ classification =>
        .error (.invalidRequest s!"Team slot runtime failed ({classification}): {slotId}")
    | .removing _ => .error (.invalidRequest s!"Team slot is being removed: {slotId}")
    | .sessionStopped => .error (.invalidRequest s!"Team session stopped for slot: {slotId}")

def enqueueDisposition (slot : SlotState) : EnqueueDisposition :=
  match slot.runtimeConstraint with
  | .starting _ => .blockedRuntimeStarting
  | _ => if slot.active.isNone && slot.queuedIds.isEmpty then .accepted else .queued

namespace CoordinatorState

variable (s : CoordinatorState)

def inheritedRun (callerSlotId : String) : Option String :=
  (s.activeBatch callerSlotId).bind fun active ↦ active.batch.teamRunIds.head?

def resolveBinding (answers : PortAnswers) (request : EnqueueRequest) :
    RunBinding × List PortCall :=
  let inherit : Option String → RunBinding × List PortCall
    | some teamRunId => (⟨some teamRunId, false, false⟩, [])
    | none => (answers.bindSystemEnqueue request, [.bindSystemEnqueue request])
  match request.binding with
  | .background => (⟨none, false, false⟩, [])
  | .inheritRunningBatch callerSlotId => inherit (s.inheritedRun callerSlotId)
  | .userVisible | .activeRunOrBackground =>
      (answers.bindEnqueue request, [.bindEnqueue request])
  | .systemInitiated inheritFrom => inherit (inheritFrom.bind s.inheritedRun)

def alreadyOwned (slotId messageId : String) : Bool :=
  s.intents.values.any fun intent ↦
    intent.slotId == slotId && intent.mailboxMessageId == some messageId &&
      !intent.state.isTerminal

end CoordinatorState

namespace SlotWorkCoordinator

variable (c : SlotWorkCoordinator) (s : CoordinatorState)

def acquireEnqueue (answers : PortAnswers) (request : EnqueueRequest) :
    Outcome (Except TeamError EnqueueLease) :=
  let slot := { s.slotOrNew request.slotId request.role with role := request.role }
  let s := s.setSlot request.slotId slot
  match validateEnqueueConstraint request.slotId slot with
  | .error e => ⟨s, [], .error e⟩
  | .ok () =>
      let (binding, calls) := s.resolveBinding answers request
      let lease : EnqueueLease :=
        { leaseId := c.generateId s.generated
          sessionGeneration := c.sessionGeneration
          slotId := request.slotId
          role := request.role
          source := request.source
          teamRunId := binding.teamRunId }
      ⟨{ s with
          enqueueLeases := s.enqueueLeases.insert lease.leaseId ⟨lease, binding⟩
          generated := s.generated + 1 },
        calls, .ok lease⟩

/-- The checks of `commit_enqueue`, in order; they read the slot and change nothing. -/
def checkCommit (lease : EnqueueLease) (mailboxMessageId : Option String) :
    Except TeamError (SlotState × EnqueueDisposition) :=
  match s.enqueueLeases.lookup lease.leaseId with
  | none => .error (.invalidRequest "enqueue lease is no longer active")
  | some record =>
      if record.lease ≠ lease ∨ lease.sessionGeneration ≠ c.sessionGeneration then
        .error (.invalidRequest "stale enqueue lease owner")
      else if lease.source.requiresMailboxMessage && mailboxMessageId.isNone then
        .error (.invalidRequest s!"{lease.source.debugName} requires a mailbox message")
      else match s.slots.lookup lease.slotId with
        | none => .error (.agentNotFound lease.slotId)
        | some slot =>
            match validateEnqueueConstraint lease.slotId slot with
            | .error e => .error e
            | .ok () => .ok (slot, enqueueDisposition slot)

variable {c s} in
theorem checkCommit_ok {lease : EnqueueLease} {messageId : Option String} {slot : SlotState}
    {disposition : EnqueueDisposition}
    (h : c.checkCommit s lease messageId = .ok (slot, disposition)) :
    s.slots.lookup lease.slotId = some slot ∧
      validateEnqueueConstraint lease.slotId slot = .ok () ∧
        ∃ record, s.enqueueLeases.lookup lease.leaseId = some record ∧ record.lease = lease := by
  unfold checkCommit at h
  split at h
  · cases h
  · next record hrecord =>
      split at h
      · cases h
      · next hlease =>
          split at h
          · cases h
          · split at h
            · cases h
            · next slot' hslot =>
                split at h
                · cases h
                · next hvalid =>
                    cases h
                    rw [not_or, not_not, not_not] at hlease
                    exact ⟨hslot, hvalid, record, hrecord, hlease.1⟩

def committedIntent (intentId : String) (lease : EnqueueLease) (mailboxMessageId : Option String)
    (now : ℤ) : WorkIntent where
  intentId := intentId
  sessionGeneration := c.sessionGeneration
  slotId := lease.slotId
  role := lease.role
  source := lease.source
  priority := lease.source.priority
  mailboxMessageId := mailboxMessageId
  teamRunId := lease.teamRunId
  createdAtMs := now
  state := .queued

def enqueueIntent (slot : SlotState) (source : WorkSource) (intentId : String) : SlotState :=
  let slot := { slot with paused := slot.paused && !source.resumesPausedSlot }
  if source = .leadIntervention then slot.pushFront source.priority intentId
  else slot.pushBack source.priority intentId

def commitEnqueue (lease : EnqueueLease) (mailboxMessageId : Option String) (now : ℤ) :
    Outcome (Except TeamError EnqueueCommit) :=
  match c.checkCommit s lease mailboxMessageId with
  | .error e => ⟨s, [], .error e⟩
  | .ok (slot, disposition) =>
      let intentId := c.generateId s.generated
      let slot := enqueueIntent slot lease.source intentId
      let s := (s.insertIntent (c.committedIntent intentId lease mailboxMessageId now)).setSlot
        lease.slotId slot
      let s := { s with
        enqueueLeases := s.enqueueLeases.erase lease.leaseId
        generated := s.generated + 1 }
      ⟨s, s.publishRunSummaries lease.teamRunId.toList ++ s.publishSlotWork lease.slotId,
        .ok ⟨intentId, lease.teamRunId, disposition, s.snapshotOf lease.slotId slot⟩⟩

def abortEnqueue (lease : EnqueueLease) : Outcome CommitResult :=
  match s.enqueueLeases.lookup lease.leaseId with
  | none => ⟨s, [], .staleOwner⟩
  | some record =>
      if record.lease ≠ lease ∨ lease.sessionGeneration ≠ c.sessionGeneration then
        ⟨s, [], .staleOwner⟩
      else
        let s := { s with enqueueLeases := s.enqueueLeases.erase lease.leaseId }
        let removeEmptyRun := lease.teamRunId.any fun teamRunId ↦
          (s.runIntents teamRunId).isEmpty && (s.runLeases teamRunId).isEmpty
        ⟨s, (if removeEmptyRun then [.abortBinding record.binding] else []) ++
            s.publishRunSummaries lease.teamRunId.toList ++ s.publishSlotWork lease.slotId,
          .committed⟩

def mailboxReconcileCandidates (slotId : String) : List String :=
  ((s.slots.lookup slotId).elim [] SlotState.queuedIds).filter fun id ↦ (s.messageOf id).isSome

def recoveryIntent (intentId slotId messageId : String) (role : TeamRunTargetRole) (now : ℤ) :
    WorkIntent where
  intentId := intentId
  sessionGeneration := c.sessionGeneration
  slotId := slotId
  role := role
  source := .recoveryDrain
  priority := .background
  mailboxMessageId := some messageId
  teamRunId := none
  createdAtMs := now
  state := .queued

/-- An unread row gets an owner in the background lane. -/
def createRecovery (slotId messageId : String) (role : TeamRunTargetRole) (now : ℤ) :
    CoordinatorState :=
  let intentId := c.generateId s.generated
  let s := (s.insertIntent (c.recoveryIntent intentId slotId messageId role now)).modifySlot slotId
    fun slot ↦ slot.pushBack .background intentId
  { s with generated := s.generated + 1 }

def recoverMessage (slotId : String) (role : TeamRunTargetRole) (now : ℤ)
    (acc : CoordinatorState × List String) (messageId : String) :
    CoordinatorState × List String :=
  if acc.1.alreadyOwned slotId messageId then acc
  else
    (c.createRecovery acc.1 slotId messageId role now,
      acc.2 ++ [c.generateId acc.1.generated])

def isStale (unread staleCandidates : List String) (intentId : String) : Bool :=
  (s.messageOf intentId).any fun messageId ↦ messageId ∉ unread && intentId ∈ staleCandidates

def reconciledSlot (slotId : String) (unread : List String) (role : TeamRunTargetRole) : SlotState :=
  let slot := s.slotOrNew slotId role
  { slot with
    role := role
    deliveryFailureCounts := slot.deliveryFailureCounts.retain fun messageId _ ↦
      messageId ∈ unread }

def staleIntents (slotId : String) (unread staleCandidates : List String) : List String :=
  ((s.slots.lookup slotId).elim [] SlotState.queuedIds).filter (isStale s unread staleCandidates)

def clearStale (slotId : String) (unread : List String) (role : TeamRunTargetRole)
    (staleCandidates : List String) : CoordinatorState :=
  let cleared := staleIntents s slotId unread staleCandidates
  (s.setStates cleared .completed).setSlot slotId
    ((reconciledSlot s slotId unread role).removeAllQueued cleared)

def reconcileMailboxSnapshot (slotId : String) (unread : List String) (role : TeamRunTargetRole)
    (staleCandidates : List String) (now : ℤ) : Outcome ReconcileProjection :=
  let retained := ((s.slots.lookup slotId).elim [] SlotState.queuedIds).filter fun id ↦
    (s.intents.lookup id).isSome && !isStale s unread staleCandidates id
  let recovered := unread.foldl (c.recoverMessage slotId role now)
    (clearStale s slotId unread role staleCandidates, [])
  ⟨recovered.1, [],
    ⟨recovered.2, retained, staleIntents s slotId unread staleCandidates⟩⟩

end SlotWorkCoordinator

end Zaowutai.Team
