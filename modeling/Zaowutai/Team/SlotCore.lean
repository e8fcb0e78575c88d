import Zaowutai.Team.SoleOwner

/-!
# Slots apart from their work

The core of a slot is what it knows besides its lanes and its batch: whether it
is paused, the constraint of its runtime, the failed deliveries that it counts
and the tool refresh that is pending.  Most operations move work and keep every
core; the others change the core of one slot in a way that does not depend on
its work.
-/

namespace Zaowutai.Team

open Zaowutai.Lib SlotWorkCoordinator

structure SlotCore where
  paused : Bool
  runtimeConstraint : RuntimeConstraint
  deliveryFailureCounts : Table String ℕ
  appliedMcpFingerprint : Option String
  pendingMcpFingerprint : Option String
  mcpRefreshInProgress : Bool

def SlotCore.new : SlotCore := ⟨false, .starting 0, ∅, none, none, false⟩

def SlotState.core (slot : SlotState) : SlotCore where
  paused := slot.paused
  runtimeConstraint := slot.runtimeConstraint
  deliveryFailureCounts := slot.deliveryFailureCounts
  appliedMcpFingerprint := slot.appliedMcpFingerprint
  pendingMcpFingerprint := slot.pendingMcpFingerprint
  mcpRefreshInProgress := slot.mcpRefreshInProgress

def CoordinatorState.coreAt (s : CoordinatorState) (slotId : String) : SlotCore :=
  (s.slots.lookup slotId).elim .new SlotState.core

def CoreKept (s s' : CoordinatorState) : Prop := ∀ slotId, s'.coreAt slotId = s.coreAt slotId

section Cores

variable {s s' s'' : CoordinatorState} {slot : SlotState} {slotId other : String}

theorem CoreKept.trans (h : CoreKept s s') (h' : CoreKept s' s'') : CoreKept s s'' :=
  fun slotId ↦ (h' slotId).trans (h slotId)

theorem coreKept_refl : CoreKept s s := fun _ ↦ rfl

theorem coreAt_of_lookup (h : s.slots.lookup slotId = some slot) : s.coreAt slotId = slot.core := by
  rw [CoordinatorState.coreAt, h]
  rfl

theorem core_slotOrNew (role : TeamRunTargetRole) :
    (s.slotOrNew slotId role).core = s.coreAt slotId := by
  rw [CoordinatorState.slotOrNew, CoordinatorState.coreAt]
  cases s.slots.lookup slotId <;> rfl

theorem coreAt_insert (h : s'.slots = s.slots.insert slotId slot) :
    s'.coreAt other = if other = slotId then slot.core else s.coreAt other := by
  rw [CoordinatorState.coreAt, h, Table.lookup_insert_eq]
  split <;> rfl

theorem coreAt_modify {f : SlotState → SlotState} {g : SlotCore → SlotCore}
    (h : s'.slots = s.slots.modify slotId f) (hf : ∀ slot, (f slot).core = g slot.core)
    (hg : g .new = .new) :
    s'.coreAt other = if other = slotId then g (s.coreAt other) else s.coreAt other := by
  rw [CoordinatorState.coreAt, CoordinatorState.coreAt, h, Table.lookup_modify]
  split
  · cases s.slots.lookup other with
    | none => exact hg.symm
    | some slot => exact hf slot
  · rfl

theorem coreKept_insert (h : s'.slots = s.slots.insert slotId slot)
    (hcore : slot.core = s.coreAt slotId) : CoreKept s s' := by
  intro other
  rw [coreAt_insert h]
  split
  · next heq => rw [hcore, heq]
  · rfl

theorem coreKept_modify {f : SlotState → SlotState} (h : s'.slots = s.slots.modify slotId f)
    (hf : ∀ slot, (f slot).core = slot.core) : CoreKept s s' := by
  intro other
  rw [coreAt_modify (g := id) h hf rfl]
  split <;> rfl

theorem coreKept_slots (h : s'.slots = s.slots) : CoreKept s s' := by
  intro other
  rw [CoordinatorState.coreAt, CoordinatorState.coreAt, h]

end Cores

section Lanes

variable {slot : SlotState}

theorem core_modifyQueue (p : WorkPriority) (f : List String → List String) :
    (slot.modifyQueue p f).core = slot.core := by
  cases p <;> rfl

theorem core_removeAllQueued (ids : List String) : (slot.removeAllQueued ids).core = slot.core := by
  rw [SlotState.removeAllQueued_eq]
  rfl

theorem core_giveBack (batch : WorkBatch) : (slot.giveBack batch).core = slot.core := by
  have hfold : ∀ (ids : List String) (slot : SlotState),
      (ids.foldl (fun slot id ↦ slot.pushFront batch.highestPriority id) slot).core =
        slot.core := by
    intro ids
    induction ids with
    | nil => exact fun _ ↦ rfl
    | cons id ids ih =>
        intro slot
        rw [List.foldl_cons, ih]
        exact core_modifyQueue _ _
  exact hfold _ _

theorem core_requeueFrontAll (s : CoordinatorState) (ids : List String) (slot : SlotState) :
    (ids.foldl (requeueFront s) slot).core = slot.core := by
  induction ids generalizing slot with
  | nil => rfl
  | cons id ids ih =>
      rw [List.foldl_cons, ih, requeueFront]
      cases priorityOf s id with
      | none => rfl
      | some p => exact core_modifyQueue _ _

end Lanes

section Kept

variable {c : SlotWorkCoordinator} {s : CoordinatorState}

theorem coreKept_acquireEnqueue (answers : PortAnswers) (request : EnqueueRequest) :
    CoreKept s (c.acquireEnqueue s answers request).state := by
  have hslot : ∀ s' : CoordinatorState, s'.slots = s.slots.insert request.slotId
      { s.slotOrNew request.slotId request.role with role := request.role } → CoreKept s s' :=
    fun s' h ↦ coreKept_insert h (core_slotOrNew request.role)
  unfold acquireEnqueue
  simp only
  split <;> exact hslot _ rfl

theorem coreKept_abortEnqueue (lease : EnqueueLease) :
    CoreKept s (c.abortEnqueue s lease).state := by
  unfold abortEnqueue
  split
  · exact coreKept_refl
  · split <;> exact coreKept_slots rfl

theorem coreKept_next (slotId : String) : CoreKept s (c.next s slotId).state := by
  obtain ⟨hsame, -⟩ | ⟨slot, p, ids, hslot, -, -, -, -, hstate⟩ :=
    next_cases (c := c) (s := s) slotId
  · rw [hsame]
    exact coreKept_refl
  · rw [hstate]
    exact coreKept_insert (s := s) rfl
      ((core_removeAllQueued ids).trans (coreAt_of_lookup hslot).symm)

theorem coreKept_observeMessages (slotId batchId : String) (messageIds : List String) :
    CoreKept s (observeMessages s slotId batchId messageIds).state := by
  unfold observeMessages
  split
  · exact coreKept_refl
  · split
    · exact coreKept_refl
    · exact coreKept_modify (s := s) (f := fun slot ↦ slot.observe messageIds) rfl fun _ ↦ rfl

theorem coreKept_markStarted (batch : WorkBatch) (turnId : String) (now : ℤ) :
    CoreKept s (c.markStarted s batch turnId now).state := by
  unfold markStarted
  split
  · exact coreKept_modify (s := s) (f := fun slot ↦ slot.start turnId now) rfl fun _ ↦ rfl
  · split <;> exact coreKept_refl

theorem coreKept_retryStart (batch : WorkBatch) : CoreKept s (c.retryStart s batch).state := by
  unfold retryStart
  split
  · exact coreKept_modify (s := s) (f := fun slot ↦ slot.giveBack batch) rfl
      fun _ ↦ core_giveBack batch
  · exact coreKept_refl

theorem coreKept_discardQueuedExcept (slotId messageId : String) :
    CoreKept s (discardQueuedExcept s slotId messageId).state :=
  coreKept_modify (s := s) (f := fun slot ↦ slot.removeAllQueued _) rfl
    fun _ ↦ core_removeAllQueued _

theorem coreKept_cancelRun (teamRunId : String) : CoreKept s (cancelRun s teamRunId).state := by
  have hactives : ∀ (entries : List (String × ActiveBatch)) (s : CoordinatorState),
      CoreKept s (entries.foldl (cancelActive teamRunId) s) := by
    intro entries
    induction entries with
    | nil => exact fun _ ↦ coreKept_refl
    | cons e entries ih =>
        intro s
        refine CoreKept.trans ?_ (ih _)
        exact coreKept_modify (f := fun slot ↦ List.foldl (requeueFront _)
          { slot with active := none } _) rfl fun slot ↦ core_requeueFrontAll _ _ _
  have hqueued : ∀ (queued : List WorkIntent) (s : CoordinatorState),
      CoreKept s (queued.foldl cancelQueued s) := by
    intro queued
    induction queued with
    | nil => exact fun _ ↦ coreKept_refl
    | cons intent queued ih =>
        intro s
        refine CoreKept.trans ?_ (ih _)
        exact coreKept_modify (f := fun slot ↦ slot.removeQueued intent.intentId) rfl fun _ ↦ rfl
  exact (hactives _ _).trans ((hqueued _ _).trans (coreKept_slots rfl))

theorem coreKept_completeSignals (slotId : String) (intentIds : List String) :
    CoreKept s (completeSignals s slotId intentIds).state := by
  unfold completeSignals
  split
  · exact coreKept_modify (s := s) (f := fun slot ↦ slot.removeAllQueued intentIds) rfl
      fun _ ↦ core_removeAllQueued _
  · exact coreKept_refl

theorem coreKept_removeSlot (slotId : String) : CoreKept s (removeSlot s slotId).state :=
  coreKept_modify (s := s) (f := SlotState.remove) rfl fun _ ↦ rfl

def CoordinatorOp.movesWork : CoordinatorOp → Bool
  | .acquireEnqueue _ _ | .abortEnqueue _ | .next _ | .observeMessages _ _ _ | .markStarted _ _ _
  | .retryStart _ | .takeInterruptMetadata _ | .discardQueuedExcept _ _ | .cancelRun _
  | .completeSignals _ _ | .removeSlot _ | .rehash _ => true
  | _ => false

theorem coreKept_step {op : CoordinatorOp} (h : op.movesWork = true) :
    CoreKept s (c.step s op) := by
  cases op with
  | acquireEnqueue answers request => exact coreKept_acquireEnqueue answers request
  | abortEnqueue lease => exact coreKept_abortEnqueue lease
  | next slotId => exact coreKept_next slotId
  | observeMessages slotId batchId messageIds =>
      exact coreKept_observeMessages slotId batchId messageIds
  | markStarted batch turnId now => exact coreKept_markStarted batch turnId now
  | retryStart batch => exact coreKept_retryStart batch
  | takeInterruptMetadata batchId => exact coreKept_slots rfl
  | discardQueuedExcept slotId messageId => exact coreKept_discardQueuedExcept slotId messageId
  | cancelRun teamRunId => exact coreKept_cancelRun teamRunId
  | completeSignals slotId intentIds => exact coreKept_completeSignals slotId intentIds
  | removeSlot slotId => exact coreKept_removeSlot slotId
  | rehash rank => exact coreKept_slots rfl
  | _ => cases h

end Kept

/-! The other operations, each with what it does to the core of its slot. -/

namespace SlotCore

variable (core : SlotCore)

def resume (source : WorkSource) : SlotCore :=
  { core with paused := core.paused && !source.resumesPausedSlot }

def retainFailures (unread : List String) : SlotCore :=
  { core with deliveryFailureCounts := core.deliveryFailureCounts.retain fun messageId _ ↦
      messageId ∈ unread }

def clearFailures (messageIds : List String) : SlotCore :=
  { core with deliveryFailureCounts := core.deliveryFailureCounts.eraseAll messageIds }

/-- `SlotState.countFailure` -/
def countFailure (acc : SlotCore × List String) (messageId : String) : SlotCore × List String :=
  let (core, exhausted) := acc
  let count := min ((core.deliveryFailureCounts.lookup messageId).getD 0 + 1) u8Max
  ({ core with deliveryFailureCounts := core.deliveryFailureCounts.insert messageId count },
    if maxMessageDeliveryFailures ≤ count then exhausted ++ [messageId] else exhausted)

def countFailures (messageIds : List String) : SlotCore × List String :=
  let (core, exhausted) := messageIds.foldl countFailure (core, [])
  ({ core with paused := core.paused || !exhausted.isEmpty }, exhausted)

def deferRefresh (fingerprint : String) : SlotCore :=
  { core with pendingMcpFingerprint := some fingerprint, mcpRefreshInProgress := false }

def completeRefresh (fingerprint : String) : SlotCore :=
  { core with
    appliedMcpFingerprint := some fingerprint
    pendingMcpFingerprint := core.pendingMcpFingerprint.filter (· ≠ fingerprint)
    mcpRefreshInProgress := false }

def releaseRefresh (fingerprint : String) : SlotCore :=
  if core.pendingMcpFingerprint = some fingerprint then
    { core with mcpRefreshInProgress := false }
  else core

def settleRefresh (fingerprint : String) : SlotCore :=
  if core.pendingMcpFingerprint = some fingerprint then
    { core with pendingMcpFingerprint := none, mcpRefreshInProgress := false }
  else core

end SlotCore

section Changed

variable {c : SlotWorkCoordinator} {s : CoordinatorState}

theorem clearFailures_new (messageIds : List String) :
    SlotCore.new.clearFailures messageIds = .new := by
  have hempty : ∀ ids : List String, (∅ : Table String ℕ).eraseAll ids = ∅ := by
    intro ids
    induction ids with
    | nil => rfl
    | cons id ids ih => exact ih
  simp only [SlotCore.clearFailures, SlotCore.new, hempty]

theorem core_finish {slot : SlotState} (intentIds messageIds : List String) :
    (slot.finish intentIds messageIds).core = slot.core.clearFailures messageIds := by
  rw [SlotState.finish, SlotState.removeAllQueued_eq]
  rfl

theorem coreAt_commitEnqueue (lease : EnqueueLease) (messageId : Option String) (now : ℤ) :
    (c.commitEnqueue s lease messageId now).state = s ∧
        (∃ error, (c.commitEnqueue s lease messageId now).result = .error error) ∨
      (∃ commit, (c.commitEnqueue s lease messageId now).result = .ok commit) ∧
        ∀ other, (c.commitEnqueue s lease messageId now).state.coreAt other =
          if other = lease.slotId then (s.coreAt other).resume lease.source
          else s.coreAt other := by
  unfold commitEnqueue
  split
  · exact Or.inl ⟨rfl, _, rfl⟩
  · next slot disposition hcheck =>
      refine Or.inr ⟨⟨_, rfl⟩, fun other ↦ ?_⟩
      rw [coreAt_insert (s := s) rfl]
      have hcore := coreAt_of_lookup (checkCommit_ok hcheck).1
      split
      · next heq =>
          rw [heq, hcore]
          unfold enqueueIntent
          simp only
          split <;> exact core_modifyQueue _ _
      · rfl

theorem coreKept_recoverAll (slotId : String) (role : TeamRunTargetRole) (now : ℤ)
    (unread : List String) (acc : CoordinatorState × List String) :
    CoreKept acc.1 (unread.foldl (c.recoverMessage slotId role now) acc).1 := by
  induction unread generalizing acc with
  | nil => exact coreKept_refl
  | cons m unread ih =>
      refine CoreKept.trans ?_ (ih _)
      unfold recoverMessage
      split
      · exact coreKept_refl
      · exact coreKept_modify (f := fun slot ↦ slot.pushBack .background
          (c.generateId acc.1.generated)) rfl fun _ ↦ core_modifyQueue _ _

theorem coreAt_reconcile (slotId : String) (unread : List String) (role : TeamRunTargetRole)
    (staleCandidates : List String) (now : ℤ) (other : String) :
    (c.reconcileMailboxSnapshot s slotId unread role staleCandidates now).state.coreAt other =
      if other = slotId then (s.coreAt other).retainFailures unread else s.coreAt other := by
  have hclear : (clearStale s slotId unread role staleCandidates).coreAt other =
      if other = slotId then (s.coreAt other).retainFailures unread else s.coreAt other := by
    rw [coreAt_insert (s := s) rfl, core_removeAllQueued]
    split
    · next heq =>
        rw [heq, ← core_slotOrNew role]
        rfl
    · rfl
  rw [← hclear]
  exact coreKept_recoverAll slotId role now unread _ other

theorem coreAt_completeBatchWithAck (batch : WorkBatch) :
    (c.completeBatchWithAck s batch).state = s ∧
        (c.completeBatchWithAck s batch).result.commitResult = .staleOwner ∨
      ∃ active, s.activeBatch batch.slotId = some active ∧ c.isCurrentBatch s batch = true ∧
        (c.completeBatchWithAck s batch).result.commitResult = .committed ∧
        ∀ other, (c.completeBatchWithAck s batch).state.coreAt other =
          if other = batch.slotId then (s.coreAt other).clearFailures (ackMessages active.batch)
          else s.coreAt other := by
  unfold completeBatchWithAck
  split
  · exact Or.inl ⟨rfl, rfl⟩
  · next active hactive =>
      split
      · exact Or.inl ⟨rfl, rfl⟩
      · next hcurrent =>
          refine Or.inr ⟨active, hactive, by simpa using hcurrent, rfl, fun other ↦ ?_⟩
          refine coreAt_modify (s := s) (g := fun core ↦ core.clearFailures (ackMessages active.batch))
            (f := fun slot ↦ slot.finish _ (ackMessages active.batch)) rfl (fun slot ↦ ?_) ?_
          · exact core_finish _ _
          · exact clearFailures_new _

theorem core_releaseSlot_notFailed (slot : SlotState) (batch : WorkBatch) :
    (releaseSlot slot batch .notFailed).1.core = slot.core.clearFailures batch.mailboxMessageIds :=
  rfl

theorem core_countFailures (slot : SlotState) (messageIds exhausted : List String) :
    ((messageIds.foldl SlotState.countFailure (slot, exhausted)).1.core,
        (messageIds.foldl SlotState.countFailure (slot, exhausted)).2) =
      messageIds.foldl SlotCore.countFailure (slot.core, exhausted) := by
  induction messageIds generalizing slot exhausted with
  | nil => rfl
  | cons m messageIds ih =>
      rw [List.foldl_cons, List.foldl_cons]
      exact ih _ _

theorem releaseSlot_failed (slot : SlotState) (batch : WorkBatch) :
    ((releaseSlot slot batch .failed).1.core, (releaseSlot slot batch .failed).2) =
      slot.core.countFailures batch.mailboxMessageIds := by
  have hcount := core_countFailures { slot with active := none } batch.mailboxMessageIds []
  have hcore : ({ slot with active := none } : SlotState).core = slot.core := rfl
  rw [hcore] at hcount
  rw [SlotCore.countFailures, ← hcount]
  rfl

theorem coreAt_terminalizeBatch (batch : WorkBatch) (terminal : WorkIntentState)
    (delivery : DeliveryOutcome) :
    (c.terminalizeBatch s batch terminal delivery).state = s ∧
        (c.terminalizeBatch s batch terminal delivery).result = ⟨.staleOwner, []⟩ ∨
      ∃ slot, s.slots.lookup batch.slotId = some slot ∧ c.isCurrentBatch s batch = true ∧
        (c.terminalizeBatch s batch terminal delivery).result =
          ⟨.committed, (releaseSlot slot batch delivery).2⟩ ∧
        ∀ other, (c.terminalizeBatch s batch terminal delivery).state.coreAt other =
          if other = batch.slotId then (releaseSlot slot batch delivery).1.core
          else s.coreAt other := by
  unfold terminalizeBatch
  split
  · exact Or.inl ⟨rfl, rfl⟩
  · next slot hslot =>
      split
      · exact Or.inl ⟨rfl, rfl⟩
      · next hcurrent =>
          exact Or.inr ⟨slot, hslot, by simpa using hcurrent, rfl, fun other ↦
            coreAt_insert (s := s) rfl⟩

theorem coreAt_interruptBatch (batch : WorkBatch) (reason : Option String) (messageId : String) :
    (c.interruptBatch s batch reason messageId).state = s ∧
        (c.interruptBatch s batch reason messageId).result.commitResult = .staleOwner ∨
      c.isCurrentBatch s batch = true ∧
        (c.interruptBatch s batch reason messageId).result.commitResult = .committed ∧
        ∀ other, (c.interruptBatch s batch reason messageId).state.coreAt other =
          if other = batch.slotId then (s.coreAt other).clearFailures batch.mailboxMessageIds
          else s.coreAt other := by
  unfold interruptBatch
  split
  · next hcurrent =>
      refine Or.inr ⟨hcurrent, rfl, fun other ↦ ?_⟩
      exact coreAt_modify (s := s) (f := fun slot ↦ slot.interrupt batch.mailboxMessageIds)
        (g := fun core ↦ core.clearFailures batch.mailboxMessageIds) rfl (fun _ ↦ rfl)
        (clearFailures_new _)
  · exact Or.inl ⟨rfl, rfl⟩

theorem coreAt_pauseSlot (slotId other : String) :
    (pauseSlot s slotId).state.coreAt other =
      if other = slotId then { s.coreAt other with paused := true } else s.coreAt other := by
  have hslots : (pauseSlot s slotId).state.slots = s.slots.insert slotId
      { s.slotOrNew slotId .teammate with paused := true } := rfl
  rw [coreAt_insert hslots]
  split
  · next heq =>
      rw [heq, ← core_slotOrNew .teammate]
      rfl
  · rfl

theorem coreAt_setRuntimeConstraint (slotId : String) (constraint : RuntimeConstraint)
    (other : String) : (setRuntimeConstraint s slotId constraint).state.coreAt other =
      if other = slotId then { s.coreAt other with runtimeConstraint := constraint }
      else s.coreAt other := by
  have hrequeue : ∀ (intents : List WorkIntent) (slot : SlotState),
      (intents.foldl (fun slot intent ↦ slot.pushBack intent.priority intent.intentId)
        slot).core = slot.core := by
    intro intents
    induction intents with
    | nil => exact fun _ ↦ rfl
    | cons intent intents ih =>
        intro slot
        rw [List.foldl_cons, ih]
        exact core_modifyQueue _ _
  have hinsert : ∀ (s' : CoordinatorState) (slot : SlotState),
      s'.slots = s.slots.insert slotId slot →
      slot.core = { s.coreAt slotId with runtimeConstraint := constraint } →
      s'.coreAt other = if other = slotId then
        { s.coreAt other with runtimeConstraint := constraint } else s.coreAt other := by
    intro s' slot hslots hcore
    rw [coreAt_insert hslots]
    split
    · next heq => rw [heq, hcore]
    · rfl
  unfold setRuntimeConstraint
  split
  · refine hinsert _ (rebuiltSlot s slotId constraint) rfl ?_
    rw [rebuiltSlot, hrequeue, ← core_slotOrNew .teammate]
    rfl
  · refine hinsert _ _ rfl ?_
    rw [← core_slotOrNew .teammate]
    rfl

theorem coreAt_stop (slotId : String) :
    (stop s).state.coreAt slotId = s.coreAt slotId ∨
      (stop s).state.coreAt slotId =
        { s.coreAt slotId with runtimeConstraint := .sessionStopped } := by
  have hslots : (stop s).state.slots = s.slots.mapValues fun _ ↦ SlotState.stop := rfl
  rw [CoordinatorState.coreAt, CoordinatorState.coreAt, hslots, Table.lookup_mapValues]
  cases s.slots.lookup slotId with
  | none => exact Or.inl rfl
  | some slot => exact Or.inr rfl

theorem coreAt_beginRuntimeRestart (slotId : String) (allowQueued : Bool) :
    ((∃ rejection, (beginRuntimeRestart s slotId allowQueued).result = .error rejection) ∧
        CoreKept s (beginRuntimeRestart s slotId allowQueued).state) ∨
      (beginRuntimeRestart s slotId allowQueued).result =
          .ok ⟨s.nextOperation, (s.coreAt slotId).runtimeConstraint⟩ ∧
        (beginRuntimeRestart s slotId allowQueued).state.nextOperationId = s.nextOperation ∧
        ∀ other, (beginRuntimeRestart s slotId allowQueued).state.coreAt other =
          if other = slotId then
            { s.coreAt other with runtimeConstraint := .starting s.nextOperation }
          else s.coreAt other := by
  have hkept : CoreKept s (s.setSlot slotId (s.slotOrNew slotId .teammate)) :=
    coreKept_insert rfl (core_slotOrNew .teammate)
  have hcore : (s.slotOrNew slotId .teammate).core = s.coreAt slotId := core_slotOrNew _
  unfold beginRuntimeRestart
  simp only
  split
  · exact Or.inl ⟨⟨_, rfl⟩, hkept⟩
  · split
    · exact Or.inl ⟨⟨_, rfl⟩, hkept⟩
    · exact Or.inl ⟨⟨_, rfl⟩, hkept⟩
    · refine Or.inr ⟨?_, rfl, fun other ↦ ?_⟩
      · rw [← hcore]
        rfl
      · rw [coreAt_insert (s := s.setSlot slotId (s.slotOrNew slotId .teammate)) rfl]
        split
        · next heq =>
            rw [heq, ← hcore]
            rfl
        · exact hkept other

theorem coreAt_abortRuntimeRestart (slotId : String) (gate : RuntimeRestartGate) (other : String)
    (h : (s.slots.lookup slotId).isSome) :
    (abortRuntimeRestart s slotId gate).state.coreAt other =
      if other = slotId ∧ (s.coreAt other).runtimeConstraint = .starting gate.operationId then
        { s.coreAt other with runtimeConstraint := gate.previousConstraint }
      else s.coreAt other := by
  obtain ⟨slot, hslot⟩ := Option.isSome_iff_exists.mp h
  have hcore := coreAt_of_lookup hslot
  unfold abortRuntimeRestart
  rw [hslot]
  simp only
  split
  · next hne =>
      rw [if_neg]
      rintro ⟨rfl, heq⟩
      rw [hcore] at heq
      exact hne heq
  · next hown =>
      rw [not_not] at hown
      rw [coreAt_insert (s := s) rfl]
      by_cases heq : other = slotId
      · rw [if_pos heq, if_pos ⟨heq, by rw [heq, hcore]; exact hown⟩, heq, hcore]
        rfl
      · rw [if_neg heq, if_neg fun h ↦ heq h.1]

def CoordinatorOp.setsConstraint : CoordinatorOp → Bool
  | .setRuntimeConstraint _ _ | .beginRuntimeRestart _ _ | .abortRuntimeRestart _ _ | .stop => true
  | _ => false

theorem coreAt_setsConstraint {op : CoordinatorOp} (h : op.setsConstraint = true)
    (slotId : String) : ∃ constraint,
      (c.step s op).coreAt slotId = { s.coreAt slotId with runtimeConstraint := constraint } := by
  cases op with
  | setRuntimeConstraint other constraint =>
      change ∃ _, (setRuntimeConstraint s other constraint).state.coreAt slotId = _
      rw [coreAt_setRuntimeConstraint]
      split <;> exact ⟨_, rfl⟩
  | beginRuntimeRestart other allowQueued =>
      change ∃ _, (beginRuntimeRestart s other allowQueued).state.coreAt slotId = _
      obtain ⟨-, hkept⟩ | ⟨-, -, hcore⟩ := coreAt_beginRuntimeRestart (s := s) other allowQueued
      · exact ⟨_, hkept slotId⟩
      · rw [hcore]
        split <;> exact ⟨_, rfl⟩
  | abortRuntimeRestart other gate =>
      change ∃ _, (abortRuntimeRestart s other gate).state.coreAt slotId = _
      cases hslot : s.slots.lookup other with
      | none =>
          unfold abortRuntimeRestart
          rw [hslot]
          exact ⟨_, rfl⟩
      | some slot =>
          rw [coreAt_abortRuntimeRestart other gate slotId (by rw [hslot]; rfl)]
          split <;> exact ⟨_, rfl⟩
  | stop =>
      obtain hsame | hstopped := coreAt_stop (s := s) slotId
      · exact ⟨_, hsame⟩
      · exact ⟨_, hstopped⟩
  | _ => cases h

end Changed

section Refreshed

variable {s : CoordinatorState}

theorem coreAt_requestMcpRefresh (slotId fingerprint : String) :
    (requestMcpRefresh s slotId fingerprint).result ≠ .deferred ∧
        CoreKept s (requestMcpRefresh s slotId fingerprint).state ∨
      (requestMcpRefresh s slotId fingerprint).result = .deferred ∧
        ∀ other, (requestMcpRefresh s slotId fingerprint).state.coreAt other =
          if other = slotId then (s.coreAt other).deferRefresh fingerprint else s.coreAt other := by
  have hkept : CoreKept s (s.setSlot slotId (s.slotOrNew slotId .teammate)) :=
    coreKept_insert rfl (core_slotOrNew .teammate)
  unfold requestMcpRefresh
  simp only
  split
  · exact Or.inl ⟨by simp, hkept⟩
  · split
    · refine Or.inr ⟨rfl, fun other ↦ ?_⟩
      rw [coreAt_insert (s := s) rfl]
      split
      · next heq =>
          rw [heq, ← core_slotOrNew .teammate]
          rfl
      · rfl
    · exact Or.inl ⟨by simp, hkept⟩

theorem coreAt_deferMcpRefresh (slotId fingerprint other : String) :
    (deferMcpRefresh s slotId fingerprint).state.coreAt other =
      if other = slotId ∧ (s.coreAt other).appliedMcpFingerprint ≠ some fingerprint then
        (s.coreAt other).deferRefresh fingerprint
      else s.coreAt other := by
  have hcore : (s.slotOrNew slotId .teammate).core = s.coreAt slotId := core_slotOrNew _
  have happlied : (s.slotOrNew slotId .teammate).appliedMcpFingerprint =
      (s.coreAt slotId).appliedMcpFingerprint := congrArg SlotCore.appliedMcpFingerprint hcore
  have hstate : (deferMcpRefresh s slotId fingerprint).state =
      if (s.coreAt slotId).appliedMcpFingerprint ≠ some fingerprint then
        s.setSlot slotId ((s.slotOrNew slotId .teammate).deferRefresh fingerprint)
      else s.setSlot slotId (s.slotOrNew slotId .teammate) := by
    rw [← happlied]
    unfold deferMcpRefresh
    simp only
    split <;> rfl
  rw [hstate]
  by_cases hne : (s.coreAt slotId).appliedMcpFingerprint ≠ some fingerprint
  · rw [if_pos hne, coreAt_insert (s := s) rfl]
    by_cases heq : other = slotId
    · subst heq
      rw [if_pos rfl, if_pos ⟨rfl, hne⟩, ← hcore]
      rfl
    · rw [if_neg heq, if_neg fun h ↦ heq h.1]
  · rw [if_neg hne, if_neg]
    · exact coreKept_insert (s := s) rfl hcore other
    · rintro ⟨rfl, h⟩
      exact hne h

theorem coreAt_claimPendingMcpRefresh (slotId : String) :
    (claimPendingMcpRefresh s slotId).result = none ∧ (claimPendingMcpRefresh s slotId).state = s ∧
        ((s.activeBatch slotId).isSome ∨ (s.coreAt slotId).mcpRefreshInProgress = true ∨
          (s.coreAt slotId).pendingMcpFingerprint = none) ∨
      ∃ fingerprint, (claimPendingMcpRefresh s slotId).result = some fingerprint ∧
        s.activeBatch slotId = none ∧ (s.coreAt slotId).mcpRefreshInProgress = false ∧
        (s.coreAt slotId).pendingMcpFingerprint = some fingerprint ∧
        ∀ other, (claimPendingMcpRefresh s slotId).state.coreAt other =
          if other = slotId then { s.coreAt other with mcpRefreshInProgress := true }
          else s.coreAt other := by
  unfold claimPendingMcpRefresh
  split
  · next hnone =>
      refine Or.inl ⟨rfl, rfl, Or.inr (Or.inr ?_)⟩
      rw [CoordinatorState.coreAt, hnone]
      rfl
  · next slot hslot =>
      have hcore := coreAt_of_lookup hslot
      have hactive : s.activeBatch slotId = slot.active := by
        rw [CoordinatorState.activeBatch, hslot]
        rfl
      rw [hcore, hactive]
      split
      · next hbusy =>
          rw [Bool.or_eq_true] at hbusy
          exact Or.inl ⟨rfl, rfl, hbusy.imp_right Or.inl⟩
      · next hfree =>
          rw [Bool.or_eq_true, not_or, Bool.not_eq_true, Bool.not_eq_true,
            Option.isSome_eq_false_iff, Option.isNone_iff_eq_none] at hfree
          split
          · next hpending => exact Or.inl ⟨rfl, rfl, Or.inr (Or.inr hpending)⟩
          · next fingerprint hpending =>
              refine Or.inr ⟨fingerprint, rfl, hfree.1, hfree.2, hpending, fun other ↦ ?_⟩
              rw [coreAt_insert (s := s) rfl]
              split
              · next heq =>
                  rw [heq, hcore]
                  rfl
              · rfl

theorem coreAt_completeMcpRefresh (slotId fingerprint other : String) :
    (completeMcpRefresh s slotId fingerprint).state.coreAt other =
      if other = slotId ∧ (s.slots.lookup slotId).isSome then
        (s.coreAt other).completeRefresh fingerprint
      else s.coreAt other := by
  have hslots : (completeMcpRefresh s slotId fingerprint).state.slots =
      s.slots.modify slotId fun slot ↦ slot.completeRefresh fingerprint := rfl
  rw [CoordinatorState.coreAt, CoordinatorState.coreAt, hslots, Table.lookup_modify]
  by_cases heq : other = slotId
  · subst heq
    cases hslot : s.slots.lookup other with
    | none => simp
    | some slot => simp [SlotState.completeRefresh, SlotState.core, SlotCore.completeRefresh]
  · simp [heq]

theorem coreAt_releaseMcpRefresh (slotId fingerprint other : String) :
    (releaseMcpRefresh s slotId fingerprint).state.coreAt other =
      if other = slotId then (s.coreAt other).releaseRefresh fingerprint else s.coreAt other := by
  refine coreAt_modify (s := s) (f := fun slot ↦ slot.releaseRefresh fingerprint)
    (g := fun core ↦ core.releaseRefresh fingerprint) rfl (fun slot ↦ ?_) rfl
  rw [SlotState.releaseRefresh, SlotCore.releaseRefresh]
  by_cases h : slot.pendingMcpFingerprint = some fingerprint
  · rw [if_pos h]
    exact (if_pos h).symm
  · rw [if_neg h]
    exact (if_neg h).symm

theorem coreAt_settleMcpRefreshClaim (slotId fingerprint other : String) :
    (settleMcpRefreshClaim s slotId fingerprint).state.coreAt other =
      if other = slotId then (s.coreAt other).settleRefresh fingerprint else s.coreAt other := by
  refine coreAt_modify (s := s) (f := fun slot ↦ slot.settleRefresh fingerprint)
    (g := fun core ↦ core.settleRefresh fingerprint) rfl (fun slot ↦ ?_) rfl
  rw [SlotState.settleRefresh, SlotCore.settleRefresh]
  by_cases h : slot.pendingMcpFingerprint = some fingerprint
  · rw [if_pos h]
    exact (if_pos h).symm
  · rw [if_neg h]
    exact (if_neg h).symm

end Refreshed

end Zaowutai.Team
