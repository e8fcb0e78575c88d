import Zaowutai.Lib.Run
import Zaowutai.Team.Enqueue
import Zaowutai.Team.Runtime

/-!
# Runs of the coordinator

One label for each operation, with the arguments of the call.  `rehash` is not
an operation: it changes the iteration order of the hash maps, so that a run
with `rehash` steps covers every order in which they may be iterated.
-/

namespace Zaowutai.Team

open Zaowutai.Lib

inductive CoordinatorOp
  | acquireEnqueue (answers : PortAnswers) (request : EnqueueRequest)
  | commitEnqueue (lease : EnqueueLease) (mailboxMessageId : Option String) (now : ℤ)
  | abortEnqueue (lease : EnqueueLease)
  | reconcileMailboxSnapshot (slotId : String) (unread : List String) (role : TeamRunTargetRole)
      (staleCandidates : List String) (now : ℤ)
  | next (slotId : String)
  | observeMessages (slotId expectedBatchId : String) (messageIds : List String)
  | markStarted (batch : WorkBatch) (turnId : String) (now : ℤ)
  | retryStart (batch : WorkBatch)
  | completeBatchWithAck (batch : WorkBatch)
  | failBatch (batch : WorkBatch) (classification : String)
  | cancelBatch (batch : WorkBatch) (classification : String)
  | interruptBatch (batch : WorkBatch) (reason : Option String) (replacementMessageId : String)
  | takeInterruptMetadata (batchId : String)
  | discardQueuedExcept (slotId retainedMessageId : String)
  | cancelRun (teamRunId : String)
  | completeSignals (slotId : String) (intentIds : List String)
  | pauseSlot (slotId : String)
  | setRuntimeConstraint (slotId : String) (constraint : RuntimeConstraint)
  | beginRuntimeRestart (slotId : String) (allowQueued : Bool)
  | abortRuntimeRestart (slotId : String) (gate : RuntimeRestartGate)
  | requestMcpRefresh (slotId fingerprint : String)
  | deferMcpRefresh (slotId fingerprint : String)
  | claimPendingMcpRefresh (slotId : String)
  | completeMcpRefresh (slotId fingerprint : String)
  | releaseMcpRefresh (slotId fingerprint : String)
  | settleMcpRefreshClaim (slotId fingerprint : String)
  | removeSlot (slotId : String)
  | stop
  | rehash (rank : String → ℕ)

def Outcome.forget {α : Type} (o : Outcome α) : CoordinatorState × List PortCall :=
  (o.state, o.calls)

namespace SlotWorkCoordinator

variable (c : SlotWorkCoordinator)

def rehash (s : CoordinatorState) (rank : String → ℕ) : CoordinatorState :=
  { s with
    intents := s.intents.reorder rank
    enqueueLeases := s.enqueueLeases.reorder rank }

def perform (s : CoordinatorState) : CoordinatorOp → CoordinatorState × List PortCall
  | .acquireEnqueue answers request => (c.acquireEnqueue s answers request).forget
  | .commitEnqueue lease messageId now => (c.commitEnqueue s lease messageId now).forget
  | .abortEnqueue lease => (c.abortEnqueue s lease).forget
  | .reconcileMailboxSnapshot slotId unread role staleCandidates now =>
      (c.reconcileMailboxSnapshot s slotId unread role staleCandidates now).forget
  | .next slotId => (c.next s slotId).forget
  | .observeMessages slotId batchId messageIds =>
      (observeMessages s slotId batchId messageIds).forget
  | .markStarted batch turnId now => (c.markStarted s batch turnId now).forget
  | .retryStart batch => (c.retryStart s batch).forget
  | .completeBatchWithAck batch => (c.completeBatchWithAck s batch).forget
  | .failBatch batch classification => (c.failBatch s batch classification).forget
  | .cancelBatch batch classification => (c.cancelBatch s batch classification).forget
  | .interruptBatch batch reason messageId => (c.interruptBatch s batch reason messageId).forget
  | .takeInterruptMetadata batchId => (takeInterruptMetadata s batchId).forget
  | .discardQueuedExcept slotId messageId => (discardQueuedExcept s slotId messageId).forget
  | .cancelRun teamRunId => (cancelRun s teamRunId).forget
  | .completeSignals slotId intentIds => (completeSignals s slotId intentIds).forget
  | .pauseSlot slotId => (pauseSlot s slotId).forget
  | .setRuntimeConstraint slotId constraint => (setRuntimeConstraint s slotId constraint).forget
  | .beginRuntimeRestart slotId allowQueued => (beginRuntimeRestart s slotId allowQueued).forget
  | .abortRuntimeRestart slotId gate => (abortRuntimeRestart s slotId gate).forget
  | .requestMcpRefresh slotId fingerprint => (requestMcpRefresh s slotId fingerprint).forget
  | .deferMcpRefresh slotId fingerprint => (deferMcpRefresh s slotId fingerprint).forget
  | .claimPendingMcpRefresh slotId => (claimPendingMcpRefresh s slotId).forget
  | .completeMcpRefresh slotId fingerprint => (completeMcpRefresh s slotId fingerprint).forget
  | .releaseMcpRefresh slotId fingerprint => (releaseMcpRefresh s slotId fingerprint).forget
  | .settleMcpRefreshClaim slotId fingerprint =>
      (settleMcpRefreshClaim s slotId fingerprint).forget
  | .removeSlot slotId => (removeSlot s slotId).forget
  | .stop => (stop s).forget
  | .rehash rank => (rehash s rank, [])

def step (s : CoordinatorState) (op : CoordinatorOp) : CoordinatorState := (c.perform s op).1

end SlotWorkCoordinator

end Zaowutai.Team
