import Zaowutai.Team.RuntimeSteps

/-!
# What every operation leaves alone

Whatever its arguments are, an operation changes of an existing intent only
the state, gives a new intent a freshly drawn id, and keeps or drops the active
batch of a slot.  The two exceptions for the batch are the claim of `next` and
the rows bound by `observe_messages`.
-/

namespace Zaowutai.Team

open Zaowutai.Lib SlotWorkCoordinator

def SlotState.batch? (slot : SlotState) : Option WorkBatch := slot.active.map ActiveBatch.batch

def CoordinatorState.batchAt (s : CoordinatorState) (slotId : String) : Option WorkBatch :=
  (s.slots.lookup slotId).bind SlotState.batch?

structure IntentsKept (c : SlotWorkCoordinator) (s s' : CoordinatorState) : Prop where
  generated : s.generated ≤ s'.generated
  old : ∀ id intent, s.intents.lookup id = some intent →
    ∃ state, s'.intents.lookup id = some { intent with state := state }
  new : ∀ id intent, s'.intents.lookup id = some intent →
    (∃ old, s.intents.lookup id = some old ∧ intent = { old with state := intent.state }) ∨
      ∃ k, s.generated ≤ k ∧ k < s'.generated ∧ id = c.generateId k ∧ intent.intentId = id

structure Keyed (c : SlotWorkCoordinator) (s : CoordinatorState) : Prop where
  keys : ∀ id intent, s.intents.lookup id = some intent → intent.intentId = id
  drawn : ∀ id intent, s.intents.lookup id = some intent → ∃ k < s.generated, id = c.generateId k

structure Calm (c : SlotWorkCoordinator) (s s' : CoordinatorState) : Prop where
  intents : Keyed c s → IntentsKept c s s'
  batches : ∀ slotId, s'.batchAt slotId = s.batchAt slotId ∨ s'.batchAt slotId = none

section Keyed

variable {c : SlotWorkCoordinator} {s s' : CoordinatorState}

theorem keyed_empty : Keyed c .empty where
  keys := by simp [CoordinatorState.empty]
  drawn := by simp [CoordinatorState.empty]

theorem Keyed.lookup_generated (h : Keyed c s) {k : ℕ} (hk : s.generated ≤ k) :
    s.intents.lookup (c.generateId k) = none := by
  cases hi : s.intents.lookup (c.generateId k) with
  | none => rfl
  | some intent =>
      obtain ⟨l, hl, heq⟩ := h.drawn _ _ hi
      have := c.generateId_injective heq
      omega

theorem Keyed.of_kept (h : Keyed c s) (hkept : IntentsKept c s s') : Keyed c s' where
  keys id intent hi := by
    rcases hkept.new id intent hi with ⟨old, hold, heq⟩ | ⟨k, _, _, _, hid⟩
    · rw [heq]
      exact h.keys id old hold
    · exact hid
  drawn id intent hi := by
    rcases hkept.new id intent hi with ⟨old, hold, _⟩ | ⟨k, _, hk, hid, _⟩
    · obtain ⟨k, hk, hid⟩ := h.drawn id old hold
      exact ⟨k, hk.trans_le hkept.generated, hid⟩
    · exact ⟨k, hk, hid⟩

end Keyed

section Rules

variable {c : SlotWorkCoordinator} {s s' s'' : CoordinatorState} {slotId : String}

theorem IntentsKept.trans (h : IntentsKept c s s') (h' : IntentsKept c s' s'') :
    IntentsKept c s s'' where
  generated := h.generated.trans h'.generated
  old id intent hi := by
    obtain ⟨state, hstate⟩ := h.old id intent hi
    obtain ⟨state', hstate'⟩ := h'.old id _ hstate
    exact ⟨state', hstate'⟩
  new id intent hi := by
    rcases h'.new id intent hi with ⟨old, hold, heq⟩ | ⟨k, hk, hk', hid⟩
    · rcases h.new id old hold with ⟨older, holder, heq'⟩ | ⟨k, hk, hk', hid, hold'⟩
      · refine Or.inl ⟨older, holder, ?_⟩
        rw [heq, heq']
      · refine Or.inr ⟨k, hk, hk'.trans_le h'.generated, hid, ?_⟩
        rw [heq]
        exact hold'
    · exact Or.inr ⟨k, h.generated.trans hk, hk', hid⟩

theorem Calm.trans (h : Calm c s s') (h' : Calm c s' s'') : Calm c s s'' where
  intents hkeyed := by
    have hkept := h.intents hkeyed
    exact hkept.trans (h'.intents (hkeyed.of_kept hkept))
  batches slotId := by
    rcases h'.batches slotId with heq | hnone
    · rw [heq]
      exact h.batches slotId
    · exact Or.inr hnone

theorem kept_lookup (hintents : ∀ id, s'.intents.lookup id = s.intents.lookup id)
    (hgen : s.generated ≤ s'.generated) : IntentsKept c s s' where
  generated := hgen
  old id intent hi := ⟨intent.state, by rw [hintents, hi]⟩
  new id intent hi := Or.inl ⟨intent, by rw [← hintents, hi], rfl⟩

theorem kept_restated {f : String → WorkIntent → WorkIntentState}
    (hintents : s'.intents = restated s.intents f) (hgen : s.generated ≤ s'.generated) :
    IntentsKept c s s' where
  generated := hgen
  old id intent hi := ⟨f id intent, by rw [hintents, Table.lookup_mapValues, hi]; rfl⟩
  new id intent hi := by
    obtain ⟨old, hold, rfl⟩ := lookup_restated (hintents ▸ hi)
    exact Or.inl ⟨old, hold, rfl⟩

theorem kept_insert (h : Keyed c s) (intent : WorkIntent)
    (hid : intent.intentId = c.generateId s.generated)
    (hintents : s'.intents = s.intents.insert intent.intentId intent)
    (hgen : s'.generated = s.generated + 1) : IntentsKept c s s' where
  generated := by omega
  old id old hold := by
    refine ⟨old.state, ?_⟩
    rw [hintents, Table.lookup_insert_eq, if_neg, hold]
    rintro rfl
    rw [hid, h.lookup_generated le_rfl] at hold
    exact absurd hold (by simp)
  new id new hnew := by
    rw [hintents, Table.lookup_insert_eq] at hnew
    split at hnew
    · next heq =>
        cases hnew
        exact Or.inr ⟨s.generated, le_rfl, by omega, heq.trans hid, heq.symm⟩
    · exact Or.inl ⟨new, hnew, rfl⟩

theorem batchAt_insert {slot : SlotState} (h : s'.slots = s.slots.insert slotId slot)
    (other : String) :
    s'.batchAt other = if other = slotId then slot.batch? else s.batchAt other := by
  unfold CoordinatorState.batchAt
  rw [h, Table.lookup_insert_eq]
  split <;> rfl

theorem batchAt_modify {f : SlotState → SlotState} (h : s'.slots = s.slots.modify slotId f)
    (other : String) : s'.batchAt other =
      if other = slotId then (s.slots.lookup slotId).bind fun slot ↦ (f slot).batch?
      else s.batchAt other := by
  unfold CoordinatorState.batchAt
  rw [h, Table.lookup_modify]
  split
  · next heq => rw [heq, Option.bind_map]; rfl
  · rfl

theorem batches_insert {slot : SlotState} (h : s'.slots = s.slots.insert slotId slot)
    (hslot : slot.batch? = s.batchAt slotId ∨ slot.batch? = none) (other : String) :
    s'.batchAt other = s.batchAt other ∨ s'.batchAt other = none := by
  rw [batchAt_insert h]
  split
  · next heq => rw [heq]; exact hslot
  · exact Or.inl rfl

theorem batches_modify {f : SlotState → SlotState} (h : s'.slots = s.slots.modify slotId f)
    (hf : ∀ slot, (f slot).batch? = slot.batch? ∨ (f slot).batch? = none) (other : String) :
    s'.batchAt other = s.batchAt other ∨ s'.batchAt other = none := by
  rw [batchAt_modify h]
  split
  · next heq =>
      rw [heq]
      unfold CoordinatorState.batchAt
      cases s.slots.lookup slotId with
      | none => exact Or.inl rfl
      | some slot => exact hf slot
  · exact Or.inl rfl

theorem batch_slotOrNew (role : TeamRunTargetRole) :
    (s.slotOrNew slotId role).batch? = s.batchAt slotId := by
  unfold CoordinatorState.slotOrNew CoordinatorState.batchAt
  cases s.slots.lookup slotId <;> rfl

theorem batchAt_of_lookup {slot : SlotState} (h : s.slots.lookup slotId = some slot) :
    slot.batch? = s.batchAt slotId := by
  simp [CoordinatorState.batchAt, h]

theorem calm_refl : Calm c s s where
  intents _ := kept_lookup (fun _ ↦ rfl) le_rfl
  batches _ := Or.inl rfl

theorem calm_lookup (hintents : ∀ id, s'.intents.lookup id = s.intents.lookup id)
    (hgen : s.generated ≤ s'.generated)
    (hbatches : ∀ slotId, s'.batchAt slotId = s.batchAt slotId ∨ s'.batchAt slotId = none) :
    Calm c s s' :=
  ⟨fun _ ↦ kept_lookup hintents hgen, hbatches⟩

theorem calm_setSlot {slot : SlotState} (hslots : s'.slots = s.slots.insert slotId slot)
    (hslot : slot.batch? = s.batchAt slotId) (hintents : s'.intents = s.intents)
    (hgen : s.generated ≤ s'.generated) : Calm c s s' :=
  calm_lookup (fun _ ↦ by rw [hintents]) hgen (batches_insert hslots (Or.inl hslot))

theorem calm_restated {f : String → WorkIntent → WorkIntentState}
    (hintents : s'.intents = restated s.intents f) (hgen : s.generated ≤ s'.generated)
    (hbatches : ∀ slotId, s'.batchAt slotId = s.batchAt slotId ∨ s'.batchAt slotId = none) :
    Calm c s s' :=
  ⟨fun _ ↦ kept_restated hintents hgen, hbatches⟩

theorem calm_setStates (ids : List String) (state : WorkIntentState) {f : SlotState → SlotState}
    (hintents : s'.intents = (s.setStates ids state).intents)
    (hslots : s'.slots = s.slots.modify slotId f) (hgen : s.generated ≤ s'.generated)
    (hf : ∀ slot, (f slot).batch? = slot.batch? ∨ (f slot).batch? = none) : Calm c s s' :=
  calm_restated (f := fun id intent ↦ if id ∈ ids then state else intent.state) hintents hgen
    (batches_modify hslots hf)

end Rules

section Operations

variable {c : SlotWorkCoordinator} {s : CoordinatorState}

theorem batch_modifyQueue (slot : SlotState) (p : WorkPriority) (f : List String → List String) :
    (slot.modifyQueue p f).batch? = slot.batch? := by
  rw [SlotState.batch?, SlotState.active_modifyQueue]
  rfl

theorem batch_removeAllQueued (slot : SlotState) (ids : List String) :
    (slot.removeAllQueued ids).batch? = slot.batch? := by
  rw [SlotState.batch?, SlotState.active_removeAllQueued]
  rfl

theorem calm_acquireEnqueue (answers : PortAnswers) (request : EnqueueRequest) :
    Calm c s (c.acquireEnqueue s answers request).state := by
  simp only [acquireEnqueue]
  split
  · exact calm_setSlot rfl (batch_slotOrNew _) rfl le_rfl
  · exact calm_setSlot rfl (batch_slotOrNew _) rfl (Nat.le_succ _)

theorem batch_enqueueIntent (slot : SlotState) (source : WorkSource) (intentId : String) :
    (enqueueIntent slot source intentId).batch? = slot.batch? := by
  unfold enqueueIntent
  split <;> exact batch_modifyQueue _ _ _

theorem calm_commitEnqueue (lease : EnqueueLease) (messageId : Option String) (now : ℤ) :
    Calm c s (c.commitEnqueue s lease messageId now).state := by
  unfold commitEnqueue
  split
  · exact calm_refl
  · next slot disposition hcheck =>
      refine ⟨fun hkeyed ↦ kept_insert hkeyed
        (c.committedIntent (c.generateId s.generated) lease messageId now) rfl rfl rfl,
        batches_insert rfl (Or.inl ?_)⟩
      rw [batch_enqueueIntent, batchAt_of_lookup (checkCommit_ok hcheck).1]

theorem calm_abortEnqueue (lease : EnqueueLease) : Calm c s (c.abortEnqueue s lease).state := by
  unfold abortEnqueue
  split
  · exact calm_refl
  · split
    · exact calm_refl
    · exact calm_lookup (fun _ ↦ rfl) le_rfl fun _ ↦ Or.inl rfl

theorem calm_recoverAll (slotId : String) (role : TeamRunTargetRole) (now : ℤ)
    (created unread : List String) :
    Calm c s (unread.foldl (c.recoverMessage slotId role now) (s, created)).1 := by
  induction unread generalizing s created with
  | nil => exact calm_refl
  | cons messageId unread ih =>
      refine Calm.trans (?_ : Calm c s (c.recoverMessage slotId role now (s, created) messageId).1)
        (ih _)
      unfold recoverMessage
      split
      · exact calm_refl
      · exact ⟨fun hkeyed ↦ kept_insert hkeyed
          (c.recoveryIntent (c.generateId s.generated) slotId messageId role now)
          rfl rfl rfl,
          batches_modify (f := fun slot ↦ slot.pushBack .background (c.generateId s.generated)) rfl
            fun slot ↦ Or.inl (batch_modifyQueue _ _ _)⟩

theorem calm_reconcileMailboxSnapshot (slotId : String) (unread : List String)
    (role : TeamRunTargetRole) (staleCandidates : List String) (now : ℤ) :
    Calm c s (c.reconcileMailboxSnapshot s slotId unread role staleCandidates now).state := by
  have hclear : Calm c s (clearStale s slotId unread role staleCandidates) := by
    refine calm_restated (f := fun id intent ↦
      if id ∈ staleIntents s slotId unread staleCandidates then .completed else intent.state)
      rfl le_rfl (batches_insert rfl (Or.inl ?_))
    rw [batch_removeAllQueued]
    exact batch_slotOrNew role
  exact hclear.trans (calm_recoverAll slotId role now [] unread)

theorem calm_markStarted (batch : WorkBatch) (turnId : String) (now : ℤ) :
    Calm c s (c.markStarted s batch turnId now).state := by
  unfold markStarted
  split
  · refine calm_setStates batch.intentIds (.running batch.batchId batch.operationId turnId)
      (f := fun slot ↦ slot.start turnId now) rfl rfl le_rfl fun slot ↦ ?_
    unfold SlotState.batch? SlotState.start
    rw [Option.map_map]
    exact Or.inl rfl
  · split <;> exact calm_refl

theorem active_giveBack (slot : SlotState) (p : WorkPriority) (ids : List String) :
    (ids.foldl (fun slot id ↦ slot.pushFront p id) slot).batch? = slot.batch? := by
  induction ids generalizing slot with
  | nil => rfl
  | cons id ids ih => rw [List.foldl_cons, ih]; exact batch_modifyQueue _ _ _

theorem calm_retryStart (batch : WorkBatch) : Calm c s (c.retryStart s batch).state := by
  unfold retryStart
  split
  · exact calm_setStates batch.intentIds .queued (f := fun slot ↦ slot.giveBack batch) rfl rfl le_rfl
      fun slot ↦ Or.inr (active_giveBack _ _ _)
  · exact calm_refl

theorem calm_completeBatchWithAck (batch : WorkBatch) :
    Calm c s (c.completeBatchWithAck s batch).state := by
  unfold completeBatchWithAck
  split
  · exact calm_refl
  · split
    · exact calm_refl
    · exact calm_setStates _ .completed (f := fun slot ↦ slot.finish _ _) rfl rfl le_rfl fun slot ↦ Or.inr rfl

theorem active_countFailures (slot : SlotState) (exhausted messageIds : List String) :
    (messageIds.foldl SlotState.countFailure (slot, exhausted)).1.active = slot.active := by
  induction messageIds generalizing slot exhausted with
  | nil => rfl
  | cons messageId messageIds ih => exact ih _ _

theorem batch_releaseSlot (slot : SlotState) (batch : WorkBatch) (delivery : DeliveryOutcome) :
    (releaseSlot slot batch delivery).1.batch? = none := by
  have hactive : (releaseSlot slot batch delivery).1.active = none := by
    cases delivery with
    | notFailed => rfl
    | failed => exact active_countFailures { slot with active := none } [] batch.mailboxMessageIds
  rw [SlotState.batch?, hactive]
  rfl

theorem calm_terminalizeBatch (batch : WorkBatch) (terminal : WorkIntentState)
    (delivery : DeliveryOutcome) :
    Calm c s (c.terminalizeBatch s batch terminal delivery).state := by
  unfold terminalizeBatch
  split
  · exact calm_refl
  · split
    · exact calm_refl
    · exact calm_restated
        (f := fun id intent ↦ if id ∈ batch.intentIds then terminal else intent.state) rfl le_rfl
        (batches_insert rfl (Or.inr (batch_releaseSlot _ _ _)))

theorem calm_interruptBatch (batch : WorkBatch) (reason : Option String) (messageId : String) :
    Calm c s (c.interruptBatch s batch reason messageId).state := by
  unfold interruptBatch
  split
  · exact calm_setStates batch.intentIds (.cancelled "lead_interrupted")
      (f := fun slot ↦ slot.interrupt batch.mailboxMessageIds) rfl rfl le_rfl fun slot ↦ Or.inr rfl
  · exact calm_refl

theorem calm_discardQueuedExcept (slotId messageId : String) :
    Calm c s (discardQueuedExcept s slotId messageId).state :=
  calm_setStates _ (.cancelled "lead_interrupt_discarded")
    (f := fun slot ↦ slot.removeAllQueued _) rfl rfl le_rfl
    fun _ ↦ Or.inl (batch_removeAllQueued _ _)

theorem batch_requeueFrontAll (slot : SlotState) (ids : List String) :
    (ids.foldl (requeueFront s) slot).batch? = slot.batch? := by
  induction ids generalizing slot with
  | nil => rfl
  | cons id ids ih =>
      rw [List.foldl_cons, ih]
      unfold requeueFront
      cases priorityOf s id with
      | none => rfl
      | some p => exact batch_modifyQueue _ _ _

theorem calm_cancelActives (teamRunId : String) (entries : List (String × ActiveBatch)) :
    Calm c s (entries.foldl (cancelActive teamRunId) s) := by
  induction entries generalizing s with
  | nil => exact calm_refl
  | cons e entries ih =>
      refine Calm.trans ?_ ih
      exact calm_restated (f := cancelState s teamRunId e.2.batch.intentIds)
        (intents_cancelActive e.2) le_rfl (batches_modify
          (f := fun slot ↦ List.foldl (requeueFront _) { slot with active := none } _) rfl
          fun slot ↦ Or.inr (batch_requeueFrontAll _ _))

theorem calm_cancelAllQueued (queued : List WorkIntent) :
    Calm c s (queued.foldl cancelQueued s) := by
  induction queued generalizing s with
  | nil => exact calm_refl
  | cons intent queued ih =>
      refine Calm.trans ?_ ih
      exact calm_setStates [intent.intentId] (.cancelled "run_cancelled")
        (f := fun slot ↦ slot.removeQueued intent.intentId) rfl rfl le_rfl
        fun _ ↦ Or.inl rfl

theorem calm_enqueueLeases (leases : Table String EnqueueLeaseRecord) :
    Calm c s { s with enqueueLeases := leases } :=
  calm_lookup (fun _ ↦ rfl) le_rfl fun _ ↦ Or.inl rfl

theorem calm_cancelRun (teamRunId : String) : Calm c s (cancelRun s teamRunId).state :=
  (calm_cancelActives teamRunId _).trans <| (calm_cancelAllQueued _).trans (calm_enqueueLeases _)

theorem calm_completeSignals (slotId : String) (intentIds : List String) :
    Calm c s (completeSignals s slotId intentIds).state := by
  unfold completeSignals
  split
  · exact calm_setStates intentIds .completed (f := fun slot ↦ slot.removeAllQueued intentIds)
      rfl rfl le_rfl fun slot ↦ Or.inl (batch_removeAllQueued _ _)
  · exact calm_refl

theorem calm_pauseSlot (slotId : String) : Calm c s (pauseSlot s slotId).state :=
  calm_setSlot rfl (batch_slotOrNew .teammate) rfl le_rfl

theorem batch_rebuiltSlot (slotId : String) (constraint : RuntimeConstraint) :
    (rebuiltSlot s slotId constraint).batch? = none := by
  rw [SlotState.batch?, rebuiltSlot, active_requeueAll]
  rfl

theorem calm_setRuntimeConstraint (slotId : String) (constraint : RuntimeConstraint) :
    Calm c s (setRuntimeConstraint s slotId constraint).state := by
  unfold setRuntimeConstraint
  split
  · exact calm_restated (f := fun _ intent ↦ endedState slotId constraint intent) rfl le_rfl
      (batches_insert rfl (Or.inr (batch_rebuiltSlot _ _)))
  · exact calm_setSlot rfl (batch_slotOrNew .teammate) rfl le_rfl

theorem calm_beginRuntimeRestart (slotId : String) (allowQueued : Bool) :
    Calm c s (beginRuntimeRestart s slotId allowQueued).state := by
  have hslot : Calm c s (s.setSlot slotId (s.slotOrNew slotId .teammate)) :=
    calm_setSlot rfl (batch_slotOrNew _) rfl le_rfl
  unfold beginRuntimeRestart
  simp only
  split
  · exact hslot
  · split
    · exact hslot
    · exact hslot
    · refine hslot.trans (calm_setSlot rfl ?_ rfl le_rfl)
      rw [batchAt_insert (s := s) rfl, if_pos rfl]
      rfl

theorem calm_abortRuntimeRestart (slotId : String) (gate : RuntimeRestartGate) :
    Calm c s (abortRuntimeRestart s slotId gate).state := by
  unfold abortRuntimeRestart
  split
  · exact calm_refl
  · next slot hslot =>
      split
      · exact calm_refl
      · have hbatch := batchAt_of_lookup hslot
        exact calm_setSlot rfl hbatch rfl le_rfl

theorem calm_requestMcpRefresh (slotId fingerprint : String) :
    Calm c s (requestMcpRefresh s slotId fingerprint).state := by
  unfold requestMcpRefresh
  simp only
  split
  · exact calm_setSlot rfl (batch_slotOrNew _) rfl le_rfl
  · split <;> exact calm_setSlot rfl (batch_slotOrNew .teammate) rfl le_rfl

theorem calm_deferMcpRefresh (slotId fingerprint : String) :
    Calm c s (deferMcpRefresh s slotId fingerprint).state := by
  unfold deferMcpRefresh
  simp only
  split <;> exact calm_setSlot rfl (batch_slotOrNew .teammate) rfl le_rfl

theorem calm_claimPendingMcpRefresh (slotId : String) :
    Calm c s (claimPendingMcpRefresh s slotId).state := by
  unfold claimPendingMcpRefresh
  split
  · exact calm_refl
  · next slot hslot =>
      split
      · exact calm_refl
      · split
        · exact calm_refl
        · have hbatch := batchAt_of_lookup hslot
          exact calm_setSlot rfl hbatch rfl le_rfl

theorem calm_completeMcpRefresh (slotId fingerprint : String) :
    Calm c s (completeMcpRefresh s slotId fingerprint).state :=
  calm_lookup (fun _ ↦ rfl) le_rfl <| batches_modify
    (f := fun slot ↦ slot.completeRefresh fingerprint) rfl fun _ ↦ Or.inl rfl

theorem calm_releaseMcpRefresh (slotId fingerprint : String) :
    Calm c s (releaseMcpRefresh s slotId fingerprint).state := by
  refine calm_lookup (fun _ ↦ rfl) le_rfl <| batches_modify
    (f := fun slot ↦ slot.releaseRefresh fingerprint) rfl fun slot ↦ Or.inl ?_
  unfold SlotState.releaseRefresh
  split <;> rfl

theorem calm_settleMcpRefreshClaim (slotId fingerprint : String) :
    Calm c s (settleMcpRefreshClaim s slotId fingerprint).state := by
  refine calm_lookup (fun _ ↦ rfl) le_rfl <| batches_modify
    (f := fun slot ↦ slot.settleRefresh fingerprint) rfl fun slot ↦ Or.inl ?_
  unfold SlotState.settleRefresh
  split <;> rfl

theorem calm_removeSlot (slotId : String) : Calm c s (removeSlot s slotId).state :=
  calm_setStates (removedIntentIds s slotId) (.cancelled "slot_removed")
    (f := SlotState.remove) rfl rfl le_rfl fun _ ↦ Or.inr rfl

theorem calm_stop : Calm c s (stop s).state := by
  refine calm_restated (f := fun _ intent ↦
    if intent.state.isTerminal then intent.state else .cancelled "session_stopped") rfl le_rfl
    fun slotId ↦ Or.inr ?_
  have hslots : (stop s).state.slots = s.slots.mapValues fun _ ↦ SlotState.stop := rfl
  rw [CoordinatorState.batchAt, hslots, Table.lookup_mapValues, Option.bind_map]
  cases s.slots.lookup slotId <;> rfl

theorem calm_rehash (rank : String → ℕ) : Calm c s (rehash s rank) :=
  calm_lookup (fun _ ↦ Table.lookup_reorder rank) le_rfl fun _ ↦ Or.inl rfl

theorem calm_step {op : CoordinatorOp} (hnext : ∀ slotId, op ≠ .next slotId)
    (hobserve : ∀ slotId batchId messageIds, op ≠ .observeMessages slotId batchId messageIds) :
    Calm c s (c.step s op) := by
  cases op with
  | acquireEnqueue answers request => exact calm_acquireEnqueue answers request
  | commitEnqueue lease messageId now => exact calm_commitEnqueue lease messageId now
  | abortEnqueue lease => exact calm_abortEnqueue lease
  | reconcileMailboxSnapshot slotId unread role staleCandidates now =>
      exact calm_reconcileMailboxSnapshot slotId unread role staleCandidates now
  | next slotId => exact (hnext slotId rfl).elim
  | observeMessages slotId batchId messageIds =>
      exact (hobserve slotId batchId messageIds rfl).elim
  | markStarted batch turnId now => exact calm_markStarted batch turnId now
  | retryStart batch => exact calm_retryStart batch
  | completeBatchWithAck batch => exact calm_completeBatchWithAck batch
  | failBatch batch classification => exact calm_terminalizeBatch batch _ .failed
  | cancelBatch batch classification => exact calm_terminalizeBatch batch _ .notFailed
  | interruptBatch batch reason messageId => exact calm_interruptBatch batch reason messageId
  | takeInterruptMetadata batchId => exact calm_lookup (fun _ ↦ rfl) le_rfl fun _ ↦ Or.inl rfl
  | discardQueuedExcept slotId messageId => exact calm_discardQueuedExcept slotId messageId
  | cancelRun teamRunId => exact calm_cancelRun teamRunId
  | completeSignals slotId intentIds => exact calm_completeSignals slotId intentIds
  | pauseSlot slotId => exact calm_pauseSlot slotId
  | setRuntimeConstraint slotId constraint => exact calm_setRuntimeConstraint slotId constraint
  | beginRuntimeRestart slotId allowQueued => exact calm_beginRuntimeRestart slotId allowQueued
  | abortRuntimeRestart slotId gate => exact calm_abortRuntimeRestart slotId gate
  | requestMcpRefresh slotId fingerprint => exact calm_requestMcpRefresh slotId fingerprint
  | deferMcpRefresh slotId fingerprint => exact calm_deferMcpRefresh slotId fingerprint
  | claimPendingMcpRefresh slotId => exact calm_claimPendingMcpRefresh slotId
  | completeMcpRefresh slotId fingerprint => exact calm_completeMcpRefresh slotId fingerprint
  | releaseMcpRefresh slotId fingerprint => exact calm_releaseMcpRefresh slotId fingerprint
  | settleMcpRefreshClaim slotId fingerprint => exact calm_settleMcpRefreshClaim slotId fingerprint
  | removeSlot slotId => exact calm_removeSlot slotId
  | stop => exact calm_stop
  | rehash rank => exact calm_rehash rank

end Operations

end Zaowutai.Team
