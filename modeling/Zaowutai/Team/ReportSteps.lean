import Zaowutai.Team.Acknowledgement
import Zaowutai.Team.RunReporting

/-!
# What each operation reports of the runs

Most operations that end intents report the runs of these intents.  The two
that do not are the clearing of stale intents by a reconciliation and the
discarding of queued intents; a batch that is given up reports the runs which
the batch argument lists.
-/

namespace Zaowutai.Team

open Zaowutai.Lib SlotWorkCoordinator

namespace SlotWorkCoordinator

def discardedIntents (s : CoordinatorState) (slotId retainedMessageId : String) : List String :=
  ((s.slots.lookup slotId).elim [] SlotState.queuedIds).filter (isDiscarded s retainedMessageId)

def blindlyEnded (c : SlotWorkCoordinator) (s : CoordinatorState) : CoordinatorOp → List String
  | .reconcileMailboxSnapshot slotId unread _ staleCandidates _ =>
      staleIntents s slotId unread staleCandidates
  | .discardQueuedExcept slotId retainedMessageId => discardedIntents s slotId retainedMessageId
  | .failBatch batch _ | .cancelBatch batch _ | .interruptBatch batch _ _ =>
      if c.isCurrentBatch s batch then batch.intentIds else []
  | _ => []

end SlotWorkCoordinator

def CoordinatorOp.reportedRuns : CoordinatorOp → List String
  | .failBatch batch _ | .cancelBatch batch _ | .interruptBatch batch _ _ => batch.teamRunIds
  | _ => []

structure Effect (s s' : CoordinatorState) (calls : List PortCall) (ended reported : List String) :
    Prop where
  reports : ∀ call ∈ calls, IsReport s' call
  leases : ∀ id record, s'.enqueueLeases.lookup id = some record →
    s.enqueueLeases.lookup id = some record
  kept : ∀ r, s.busyWithout ended r = true →
    .applyWorkSummary (s'.runSummary r) ∈ calls ∨ s'.isBusy r = true
  silent : ended ≠ [] → ∀ r, r ∉ reported → s'.isBusy r = true → s.busyWithout ended r = true
  told : ended ≠ [] → ∀ r ∈ reported, .applyWorkSummary (s'.runSummary r) ∈ calls
  others : ended ≠ [] → ∀ call ∈ calls, (∃ snapshot, call = .publishSlotWork snapshot) ∨
    ∃ summary, call = .applyWorkSummary summary ∧ summary.teamRunId ∈ reported

section Rules

variable {s s' : CoordinatorState} {calls : List PortCall} {reported : List String}

theorem mem_publishRunSummaries {ids : List String} {r : String} :
    .applyWorkSummary (s.runSummary r) ∈ s.publishRunSummaries ids ↔ r ∈ ids := by
  simp only [CoordinatorState.publishRunSummaries, CoordinatorState.runSummaries, List.mem_map,
    PortCall.applyWorkSummary.injEq]
  constructor
  · rintro ⟨_, ⟨r', hr', rfl⟩, heq⟩
    have hid : r' = r := congrArg RunWorkSummary.teamRunId heq
    exact hid ▸ mem_sortedDistinct.mp hr'
  · exact fun hr ↦ ⟨_, ⟨r, mem_sortedDistinct.mpr hr, rfl⟩, rfl⟩

theorem mem_publishRuns {call : PortCall} {ids : List String}
    (hcall : call ∈ s.publishRunSummaries ids) :
    ∃ r ∈ ids, call = .applyWorkSummary (s.runSummary r) := by
  obtain ⟨summary, hsummary, rfl⟩ := List.mem_map.mp hcall
  obtain ⟨r, hr, rfl⟩ := List.mem_map.mp hsummary
  exact ⟨r, mem_sortedDistinct.mp hr, rfl⟩

theorem mem_publishSlot {call : PortCall} {slotId : String}
    (hcall : call ∈ s.publishSlotWork slotId) : ∃ snapshot, call = .publishSlotWork snapshot := by
  obtain ⟨snapshot, _, rfl⟩ := List.mem_map.mp hcall
  exact ⟨snapshot, rfl⟩

theorem reports_runs (ids : List String) : ∀ call ∈ s.publishRunSummaries ids, IsReport s call := by
  intro call hcall
  obtain ⟨r, _, rfl⟩ := mem_publishRuns hcall
  rfl

theorem reports_slot (slotId : String) : ∀ call ∈ s.publishSlotWork slotId, IsReport s call := by
  intro call hcall
  obtain ⟨snapshot, rfl⟩ := mem_publishSlot hcall
  trivial

theorem reports_both (ids : List String) (slotId : String) :
    ∀ call ∈ s.publishRunSummaries ids ++ s.publishSlotWork slotId, IsReport s call := by
  intro call hcall
  rcases List.mem_append.mp hcall with hcall | hcall
  · exact reports_runs ids call hcall
  · exact reports_slot slotId call hcall

theorem effect_loud (hcalls : ∀ call ∈ calls, IsReport s' call)
    (hleases : s'.enqueueLeases = s.enqueueLeases)
    (hintents : ∀ id intent r, s.intents.lookup id = some intent → intent.teamRunId = some r →
      intent.state.isTerminal = false → .applyWorkSummary (s'.runSummary r) ∈ calls ∨
        ∃ intent', s'.intents.lookup id = some intent' ∧ intent'.teamRunId = some r ∧
          intent'.state.isTerminal = false) : Effect s s' calls [] reported where
  reports := hcalls
  leases id record hi := hleases ▸ hi
  kept r hbusy := by
    rcases CoordinatorState.isBusy_iff.mp hbusy with ⟨id, intent, hi, hrun, hlive⟩ | hlease
    · rcases hintents id intent r hi hrun hlive with hreport | hbusy
      · exact Or.inl hreport
      · exact Or.inr (CoordinatorState.isBusy_iff.mpr (Or.inl ⟨id, hbusy⟩))
    · exact Or.inr (CoordinatorState.isBusy_iff.mpr (Or.inr (hleases ▸ hlease)))
  silent := fun h ↦ (h rfl).elim
  told := fun h ↦ (h rfl).elim
  others := fun h ↦ (h rfl).elim

theorem effect_restated (f : String → WorkIntent → WorkIntentState)
    (hcalls : ∀ call ∈ calls, IsReport s' call) (hleases : s'.enqueueLeases = s.enqueueLeases)
    (hintents : s'.intents = restated s.intents f)
    (hf : ∀ id intent r, s.intents.lookup id = some intent → intent.teamRunId = some r →
      intent.state.isTerminal = false →
        .applyWorkSummary (s'.runSummary r) ∈ calls ∨ (f id intent).isTerminal = false) :
    Effect s s' calls [] reported := by
  refine effect_loud hcalls hleases fun id intent r hi hrun hlive ↦ ?_
  rcases hf id intent r hi hrun hlive with hreport | hkept
  · exact Or.inl hreport
  · refine Or.inr ⟨{ intent with state := f id intent }, ?_, hrun, hkept⟩
    rw [hintents, Table.lookup_mapValues, hi]
    rfl

theorem effect_setStates (ids : List String) (state : WorkIntentState)
    (hcalls : ∀ call ∈ calls, IsReport s' call) (hleases : s'.enqueueLeases = s.enqueueLeases)
    (hintents : s'.intents = (s.setStates ids state).intents)
    (hids : ∀ id ∈ ids, ∀ intent r, s.intents.lookup id = some intent →
      intent.teamRunId = some r → intent.state.isTerminal = false →
        .applyWorkSummary (s'.runSummary r) ∈ calls ∨ state.isTerminal = false) :
    Effect s s' calls [] reported := by
  refine effect_restated (fun id intent ↦ if id ∈ ids then state else intent.state) hcalls hleases
    hintents fun id intent r hi hrun hlive ↦ ?_
  by_cases hid : id ∈ ids
  · rw [if_pos hid]
    exact hids id hid intent r hi hrun hlive
  · rw [if_neg hid]
    exact Or.inr hlive

theorem effect_idle (hcalls : ∀ call ∈ calls, IsReport s' call)
    (hleases : s'.enqueueLeases = s.enqueueLeases) (hintents : s'.intents = s.intents) :
    Effect s s' calls [] reported :=
  effect_loud hcalls hleases fun _ intent _ hi hrun hlive ↦
    Or.inr ⟨intent, hintents ▸ hi, hrun, hlive⟩

theorem effect_refl : Effect s s [] [] reported :=
  effect_idle (fun _ h ↦ absurd h List.not_mem_nil) rfl rfl

theorem effect_blind (ids : List String) (state : WorkIntentState)
    (hstate : state.isTerminal = true)
    (hcalls : ∀ call ∈ calls, (∃ snapshot, call = .publishSlotWork snapshot) ∨
      ∃ r ∈ reported, call = .applyWorkSummary (s'.runSummary r))
    (htold : ∀ r ∈ reported, .applyWorkSummary (s'.runSummary r) ∈ calls)
    (hleases : s'.enqueueLeases = s.enqueueLeases)
    (hold : ∀ id intent, s.intents.lookup id = some intent →
      s'.intents.lookup id = some { intent with
        state := if id ∈ ids then state else intent.state })
    (hnew : ∀ id intent r, s'.intents.lookup id = some intent → intent.teamRunId = some r →
      ∃ old, s.intents.lookup id = some old) :
    Effect s s' calls ids reported where
  reports call hcall := by
    rcases hcalls call hcall with ⟨snapshot, rfl⟩ | ⟨r, _, rfl⟩
    · trivial
    · rfl
  leases id record hi := hleases ▸ hi
  kept r hbusy := by
    refine Or.inr (CoordinatorState.isBusy_iff.mpr ?_)
    rcases CoordinatorState.busyWithout_iff.mp hbusy with ⟨id, intent, hi, hrun, hlive, hid⟩ | hlease
    · refine Or.inl ⟨id, _, hold id intent hi, hrun, ?_⟩
      rw [if_neg hid]
      exact hlive
    · exact Or.inr (hleases ▸ hlease)
  silent _ r _ hbusy := by
    refine CoordinatorState.busyWithout_iff.mpr ?_
    rcases CoordinatorState.isBusy_iff.mp hbusy with ⟨id, intent, hi, hrun, hlive⟩ | hlease
    · obtain ⟨old, hlookup⟩ := hnew id intent r hi hrun
      obtain rfl := Option.some.inj ((hold id old hlookup).symm.trans hi)
      by_cases hid : id ∈ ids
      · simp [hid, hstate] at hlive
      · simp only [hid, if_false] at hlive
        exact Or.inl ⟨id, old, hlookup, hrun, hlive, hid⟩
    · exact Or.inr (hleases ▸ hlease)
  told _ := htold
  others _ call hcall := by
    rcases hcalls call hcall with hslot | ⟨r, hr, rfl⟩
    · exact Or.inl hslot
    · exact Or.inr ⟨_, rfl, hr⟩

theorem effect_endStates (ids : List String) (state : WorkIntentState)
    (hstate : state.isTerminal = true)
    (hcalls : ∀ call ∈ calls, (∃ snapshot, call = .publishSlotWork snapshot) ∨
      ∃ r ∈ reported, call = .applyWorkSummary (s'.runSummary r))
    (htold : ∀ r ∈ reported, .applyWorkSummary (s'.runSummary r) ∈ calls)
    (hleases : s'.enqueueLeases = s.enqueueLeases)
    (hintents : s'.intents = (s.setStates ids state).intents) :
    Effect s s' calls ids reported := by
  refine effect_blind ids state hstate hcalls htold hleases (fun id intent hi ↦ ?_)
    fun id intent r hi hrun ↦ ?_
  · rw [hintents]
    exact (Table.lookup_mapValues _).trans (by rw [hi]; rfl)
  · rw [hintents] at hi
    obtain ⟨old, hold, _⟩ := lookup_restated hi
    exact ⟨old, hold⟩

theorem calls_both {ids : List String} {slotId : String} :
    ∀ call ∈ s.publishRunSummaries ids ++ s.publishSlotWork slotId,
      (∃ snapshot, call = .publishSlotWork snapshot) ∨
        ∃ r ∈ ids, call = .applyWorkSummary (s.runSummary r) := by
  intro call hcall
  rcases List.mem_append.mp hcall with hcall | hcall
  · exact Or.inr (mem_publishRuns hcall)
  · exact Or.inl (mem_publishSlot hcall)

end Rules

section Operations

variable {c : SlotWorkCoordinator} {s s' : CoordinatorState} {reported : List String}

theorem effect_dropLease {calls : List PortCall} {lease : EnqueueLease} {record : EnqueueLeaseRecord}
    (hcalls : ∀ call ∈ calls, IsReport s' call)
    (hrecord : s.enqueueLeases.lookup lease.leaseId = some record) (hlease : record.lease = lease)
    (hleases : s'.enqueueLeases = s.enqueueLeases.erase lease.leaseId)
    (htold : ∀ r, lease.teamRunId = some r → .applyWorkSummary (s'.runSummary r) ∈ calls)
    (hintents : ∀ id intent, s.intents.lookup id = some intent →
      s'.intents.lookup id = some intent) : Effect s s' calls [] reported where
  reports := hcalls
  leases id record hi := by
    rw [hleases, Table.lookup_erase_eq] at hi
    split at hi
    · cases hi
    · exact hi
  kept r hbusy := by
    rcases CoordinatorState.isBusy_iff.mp hbusy with
      ⟨id, intent, hi, hrun, hlive⟩ | ⟨leaseId, other, hother, hrun⟩
    · exact Or.inr (CoordinatorState.isBusy_iff.mpr
        (Or.inl ⟨id, intent, hintents id intent hi, hrun, hlive⟩))
    · by_cases hid : leaseId = lease.leaseId
      · rw [hid, hrecord] at hother
        cases hother
        exact Or.inl (htold r (hlease ▸ hrun))
      · refine Or.inr (CoordinatorState.isBusy_iff.mpr (Or.inr ⟨leaseId, other, ?_, hrun⟩))
        rw [hleases, Table.lookup_erase_eq, if_neg hid]
        exact hother
  silent := fun h ↦ (h rfl).elim
  told := fun h ↦ (h rfl).elim
  others := fun h ↦ (h rfl).elim

theorem effect_commitEnqueue (hkeyed : Keyed c s) (lease : EnqueueLease) (messageId : Option String)
    (now : ℤ) : Effect s (c.commitEnqueue s lease messageId now).state
      (c.commitEnqueue s lease messageId now).calls [] reported := by
  unfold commitEnqueue
  split
  · exact effect_refl
  · next slot disposition hcheck =>
      obtain ⟨_, _, record, hrecord, hlease⟩ := checkCommit_ok hcheck
      refine effect_dropLease (reports_both _ _) hrecord hlease rfl (fun r hr ↦ ?_) ?_
      · exact List.mem_append_left _ (mem_publishRunSummaries.mpr (by simp [hr]))
      · intro id intent hi
        have hne : id ≠ c.generateId s.generated := by
          rintro rfl
          simp [hkeyed.lookup_generated le_rfl] at hi
        exact (Table.lookup_insert_eq _).trans ((if_neg hne).trans hi)

theorem effect_abortEnqueue (lease : EnqueueLease) :
    Effect s (c.abortEnqueue s lease).state (c.abortEnqueue s lease).calls [] reported := by
  unfold abortEnqueue
  split
  · exact effect_refl
  · next record hrecord =>
      split
      · exact effect_refl
      · next hlease =>
          rw [not_or, not_not] at hlease
          refine effect_dropLease ?_ hrecord hlease.1 rfl ?_ fun _ _ hi ↦ hi
          · intro call hcall
            simp only [List.mem_append, or_assoc] at hcall
            rcases hcall with habort | hruns | hslot
            · split at habort
              · rw [List.mem_singleton.mp habort]
                trivial
              · cases habort
            · exact reports_runs _ call hruns
            · exact reports_slot _ call hslot
          · intro r hr
            refine List.mem_append_left _ (List.mem_append_right _ ?_)
            exact mem_publishRunSummaries.mpr (by simp [hr])

theorem recoverAll_intents (hkeyed : Keyed c s) (slotId : String) (role : TeamRunTargetRole)
    (now : ℤ) (created unread : List String) :
    (unread.foldl (c.recoverMessage slotId role now) (s, created)).1.enqueueLeases =
        s.enqueueLeases ∧
      (∀ id intent, s.intents.lookup id = some intent →
        (unread.foldl (c.recoverMessage slotId role now) (s, created)).1.intents.lookup id =
          some intent) ∧
      ∀ id intent r,
        (unread.foldl (c.recoverMessage slotId role now) (s, created)).1.intents.lookup id =
          some intent → intent.teamRunId = some r → s.intents.lookup id = some intent := by
  induction unread generalizing s created with
  | nil => exact ⟨rfl, fun _ _ hi ↦ hi, fun _ _ _ hi _ ↦ hi⟩
  | cons messageId unread ih =>
      rw [List.foldl_cons]
      by_cases howned : s.alreadyOwned slotId messageId = true
      · have hsame : c.recoverMessage slotId role now (s, created) messageId = (s, created) :=
          if_pos howned
        rw [hsame]
        exact ih hkeyed created
      · have hnew : c.recoverMessage slotId role now (s, created) messageId =
            (c.createRecovery s slotId messageId role now,
              created ++ [c.generateId s.generated]) := if_neg howned
        have hkept : IntentsKept c s (c.createRecovery s slotId messageId role now) :=
          kept_insert hkeyed
            (c.recoveryIntent (c.generateId s.generated) slotId messageId role now) rfl rfl rfl
        have hlookup : ∀ id, (c.createRecovery s slotId messageId role now).intents.lookup id =
            if id = c.generateId s.generated then
              some (c.recoveryIntent (c.generateId s.generated) slotId messageId role now)
            else s.intents.lookup id := fun id ↦ Table.lookup_insert_eq _
        rw [hnew]
        obtain ⟨hleases, hold, hback⟩ :=
          ih (hkeyed.of_kept hkept) (created ++ [c.generateId s.generated])
        refine ⟨hleases, fun id intent hi ↦ hold id intent ?_, fun id intent r hi hrun ↦ ?_⟩
        · rw [hlookup, if_neg, hi]
          rintro rfl
          simp [hkeyed.lookup_generated le_rfl] at hi
        · have hi' := hback id intent r hi hrun
          rw [hlookup] at hi'
          split at hi'
          · cases hi'
            cases hrun
          · exact hi'

theorem effect_reconcileMailboxSnapshot (hkeyed : Keyed c s) (slotId : String)
    (unread : List String) (role : TeamRunTargetRole) (staleCandidates : List String) (now : ℤ) :
    Effect s (c.reconcileMailboxSnapshot s slotId unread role staleCandidates now).state
      (c.reconcileMailboxSnapshot s slotId unread role staleCandidates now).calls
      (staleIntents s slotId unread staleCandidates) [] := by
  have hclear : ∀ id, (clearStale s slotId unread role staleCandidates).intents.lookup id =
      (s.intents.lookup id).map fun intent ↦ { intent with
        state := if id ∈ staleIntents s slotId unread staleCandidates then .completed
          else intent.state } := fun id ↦ Table.lookup_mapValues _
  have hkept : IntentsKept c s (clearStale s slotId unread role staleCandidates) :=
    kept_restated (f := fun id intent ↦
      if id ∈ staleIntents s slotId unread staleCandidates then .completed else intent.state)
      rfl le_rfl
  obtain ⟨hleases, hold, hback⟩ := recoverAll_intents (hkeyed.of_kept hkept) slotId role now [] unread
  refine effect_blind _ .completed rfl (fun _ h ↦ absurd h List.not_mem_nil)
    (fun _ h ↦ absurd h List.not_mem_nil) hleases ?_ ?_
  · intro id intent hi
    exact hold id _ (by rw [hclear, hi]; rfl)
  · intro id intent r hi hrun
    have hi' := hback id intent r hi hrun
    rw [hclear] at hi'
    obtain ⟨old, hlookup, _⟩ := Option.map_eq_some_iff.mp hi'
    exact ⟨old, hlookup⟩

theorem effect_next (slotId : String) :
    Effect s (c.next s slotId).state (c.next s slotId).calls [] reported := by
  unfold next
  split
  · exact effect_refl
  · split
    · exact effect_refl
    · split
      · exact effect_refl
      · split
        · exact effect_refl
        · split
          · exact effect_refl
          · simp only
            split
            · exact effect_refl
            · exact effect_setStates _ _ (reports_both _ _) rfl rfl fun _ _ _ _ _ _ _ ↦ Or.inr rfl

theorem effect_observeMessages (slotId batchId : String) (messageIds : List String) :
    Effect s (observeMessages s slotId batchId messageIds).state
      (observeMessages s slotId batchId messageIds).calls [] reported := by
  unfold observeMessages
  split
  · exact effect_refl
  · split
    · exact effect_refl
    · exact effect_idle (fun _ h ↦ absurd h List.not_mem_nil) rfl rfl

theorem effect_markStarted (batch : WorkBatch) (turnId : String) (now : ℤ) :
    Effect s (c.markStarted s batch turnId now).state (c.markStarted s batch turnId now).calls []
      reported := by
  unfold markStarted
  split
  · exact effect_setStates _ _ (reports_both _ _) rfl rfl fun _ _ _ _ _ _ _ ↦ Or.inr rfl
  · split <;> exact effect_refl

theorem effect_retryStart (batch : WorkBatch) :
    Effect s (c.retryStart s batch).state (c.retryStart s batch).calls [] reported := by
  unfold retryStart
  split
  · exact effect_setStates _ _ (reports_both _ _) rfl rfl fun _ _ _ _ _ _ _ ↦ Or.inr rfl
  · exact effect_refl

theorem effect_completeBatchWithAck (hkeyed : Keyed c s) (batch : WorkBatch) :
    Effect s (c.completeBatchWithAck s batch).state (c.completeBatchWithAck s batch).calls []
      reported := by
  unfold completeBatchWithAck
  split
  · exact effect_refl
  · next active _ =>
      split
      · exact effect_refl
      · refine effect_setStates _ _ (reports_both _ _) rfl rfl fun id hid intent r hi hrun hlive ↦
          Or.inl (List.mem_append_left _ (mem_publishRunSummaries.mpr ?_))
        have hcompleted : intent ∈ completedIntents s active.batch batch.slotId := by
          refine mem_completedIntents.mpr ⟨⟨id, hi⟩, ?_⟩
          rcases List.mem_append.mp hid with hid | hid
          · exact Or.inl (hkeyed.keys id intent hi ▸ hid)
          · obtain ⟨other, hother, hotherId⟩ := List.mem_map.mp hid
            obtain ⟨⟨id', hlookup⟩, hkind⟩ := mem_completedIntents.mp hother
            have hid' : id' = id := (hkeyed.keys id' other hlookup).symm.trans hotherId
            obtain rfl : other = intent := Option.some.inj ((hid' ▸ hlookup).symm.trans hi)
            exact hkind
        exact mem_foldl_pushNew.mpr (Or.inr (List.mem_filterMap.mpr ⟨intent, hcompleted, hrun⟩))

theorem told_both {ids : List String} {slotId r : String} (hr : r ∈ ids) :
    .applyWorkSummary (s.runSummary r) ∈ s.publishRunSummaries ids ++ s.publishSlotWork slotId :=
  List.mem_append_left _ (mem_publishRunSummaries.mpr hr)

theorem effect_terminalizeBatch (batch : WorkBatch) {terminal : WorkIntentState}
    (hterminal : terminal.isTerminal = true) (delivery : DeliveryOutcome) :
    Effect s (c.terminalizeBatch s batch terminal delivery).state
      (c.terminalizeBatch s batch terminal delivery).calls
      (if c.isCurrentBatch s batch then batch.intentIds else []) batch.teamRunIds := by
  cases hcurrent : c.isCurrentBatch s batch with
  | false =>
      have hstale : c.terminalizeBatch s batch terminal delivery = ⟨s, [], ⟨.staleOwner, []⟩⟩ := by
        unfold terminalizeBatch
        split
        · rfl
        · rw [hcurrent]
          rfl
      rw [hstale]
      exact effect_refl
  | true =>
      obtain ⟨active, hactive, _⟩ := active_of_current hcurrent
      obtain ⟨slot, hslot, _⟩ := slot_of_activeBatch hactive
      unfold terminalizeBatch
      rw [hslot]
      simp only [hcurrent]
      exact effect_endStates batch.intentIds terminal hterminal calls_both
        (fun r hr ↦ told_both hr) rfl rfl

theorem effect_interruptBatch (batch : WorkBatch) (reason : Option String) (messageId : String) :
    Effect s (c.interruptBatch s batch reason messageId).state
      (c.interruptBatch s batch reason messageId).calls
      (if c.isCurrentBatch s batch then batch.intentIds else []) batch.teamRunIds := by
  unfold interruptBatch
  cases hcurrent : c.isCurrentBatch s batch with
  | false => exact effect_refl
  | true =>
      exact effect_endStates batch.intentIds (.cancelled "lead_interrupted") rfl calls_both
        (fun r hr ↦ told_both hr) rfl rfl

theorem effect_discardQueuedExcept (slotId messageId : String) :
    Effect s (discardQueuedExcept s slotId messageId).state
      (discardQueuedExcept s slotId messageId).calls (discardedIntents s slotId messageId) [] :=
  effect_endStates _ (.cancelled "lead_interrupt_discarded") rfl
    (fun _ hcall ↦ Or.inl (mem_publishSlot hcall)) (fun _ hr ↦ absurd hr List.not_mem_nil) rfl rfl

theorem cancelActives_others {teamRunId r : String} (hne : r ≠ teamRunId)
    (entries : List (String × ActiveBatch)) {id : String} {intent : WorkIntent}
    (hi : s.intents.lookup id = some intent) (hrun : intent.teamRunId = some r)
    (hlive : intent.state.isTerminal = false) :
    ∃ intent', (entries.foldl (cancelActive teamRunId) s).intents.lookup id = some intent' ∧
      intent'.teamRunId = some r ∧ intent'.state.isTerminal = false := by
  induction entries generalizing s intent with
  | nil => exact ⟨intent, hi, hrun, hlive⟩
  | cons e entries ih =>
      have hstate : ({ intent with
          state := cancelState s teamRunId e.2.batch.intentIds id intent } :
            WorkIntent).state.isTerminal = false := by
        have hother : s.teamRunOf id ≠ some teamRunId := by
          simp [CoordinatorState.teamRunOf, hi, hrun, hne]
        simp only [cancelState, hother, if_false]
        split
        · rfl
        · exact hlive
      have hlookup : (cancelActive teamRunId s e).intents.lookup id = some { intent with
          state := cancelState s teamRunId e.2.batch.intentIds id intent } := by
        have hintents : (cancelActive teamRunId s e).intents =
            restated s.intents (cancelState s teamRunId e.2.batch.intentIds) :=
          intents_cancelActive e.2
        rw [hintents, Table.lookup_mapValues, hi]
        rfl
      exact ih hlookup hrun hstate

theorem cancelAllQueued_others {teamRunId r : String} (hne : r ≠ teamRunId)
    {queued : List WorkIntent}
    (hqueued : ∀ intent ∈ queued, ∃ intent', s.intents.lookup intent.intentId = some intent' ∧
      intent'.teamRunId = some teamRunId)
    {id : String} {intent : WorkIntent} (hi : s.intents.lookup id = some intent)
    (hrun : intent.teamRunId = some r) (hlive : intent.state.isTerminal = false) :
    ∃ intent', (queued.foldl cancelQueued s).intents.lookup id = some intent' ∧
      intent'.teamRunId = some r ∧ intent'.state.isTerminal = false := by
  induction queued generalizing s intent with
  | nil => exact ⟨intent, hi, hrun, hlive⟩
  | cons head queued ih =>
      have hlookup : ∀ id, (cancelQueued s head).intents.lookup id =
          (s.intents.lookup id).map fun intent ↦ { intent with
            state := if id ∈ [head.intentId] then .cancelled "run_cancelled"
              else intent.state } := fun id ↦ Table.lookup_mapValues _
      have hid : id ∉ [head.intentId] := by
        intro hmem
        obtain ⟨intent', hi', hrun'⟩ := hqueued head List.mem_cons_self
        rw [← List.mem_singleton.mp hmem, hi] at hi'
        cases hi'
        exact hne (Option.some.inj (hrun.symm.trans hrun'))
      refine ih (fun other hother ↦ ?_) ?_ hrun hlive
      · obtain ⟨intent', hi', hrun'⟩ := hqueued other (List.mem_cons_of_mem _ hother)
        rw [hlookup, hi', Option.map_some]
        exact ⟨_, rfl, hrun'⟩
      · rw [hlookup, hi, Option.map_some, if_neg hid]

theorem keyed_cancelActives (hkeyed : Keyed c s) (teamRunId : String)
    (entries : List (String × ActiveBatch)) :
    Keyed c (entries.foldl (cancelActive teamRunId) s) :=
  hkeyed.of_kept ((calm_cancelActives teamRunId entries).intents hkeyed)

theorem leases_cancelRun (teamRunId : String) (entries : List (String × ActiveBatch))
    (queued : List WorkIntent) :
    (queued.foldl cancelQueued (entries.foldl (cancelActive teamRunId) s)).enqueueLeases =
      s.enqueueLeases := by
  have hqueued : ∀ s : CoordinatorState,
      (queued.foldl cancelQueued s).enqueueLeases = s.enqueueLeases := by
    induction queued with
    | nil => exact fun _ ↦ rfl
    | cons intent queued ih => exact fun s ↦ ih (cancelQueued s intent)
  rw [hqueued]
  induction entries generalizing s with
  | nil => rfl
  | cons e entries ih => exact ih

theorem effect_cancelRun (hkeyed : Keyed c s)
    (hkeys : ∀ id record, s.enqueueLeases.lookup id = some record → record.lease.leaseId = id)
    (teamRunId : String) :
    Effect s (cancelRun s teamRunId).state (cancelRun s teamRunId).calls [] reported := by
  let mid := (batchesOfRun s teamRunId).foldl (cancelActive teamRunId) s
  let queued := (mid.runIntents teamRunId).filter fun intent ↦ intent.state = .queued
  let last := queued.foldl cancelQueued mid
  have hlast : last.enqueueLeases = s.enqueueLeases := leases_cancelRun teamRunId _ queued
  have hleases : ∀ id, (cancelRun s teamRunId).state.enqueueLeases.lookup id =
      if id ∈ (last.runLeases teamRunId).map EnqueueLease.leaseId then none
      else s.enqueueLeases.lookup id := by
    intro id
    rw [← hlast]
    exact Table.lookup_eraseAll _
  have hintents : (cancelRun s teamRunId).state.intents = last.intents := rfl
  have hkeyedMid : Keyed c mid := keyed_cancelActives hkeyed teamRunId _
  refine ⟨?_, ?_, fun r hbusy ↦ ?_, fun h ↦ (h rfl).elim, fun h ↦ (h rfl).elim,
    fun h ↦ (h rfl).elim⟩
  · intro call hcall
    rw [List.mem_singleton.mp hcall]
    rfl
  · intro id record hi
    rw [hleases] at hi
    split at hi
    · cases hi
    · exact hi
  · by_cases hr : r = teamRunId
    · exact Or.inl (List.mem_singleton.mpr (by rw [hr]; rfl))
    · right
      apply CoordinatorState.isBusy_iff.mpr
      rw [hintents]
      rcases CoordinatorState.isBusy_iff.mp hbusy with
        ⟨id, intent, hi, hrun, hlive⟩ | ⟨leaseId, record, hrecord, hrun⟩
      · obtain ⟨intent', hi', hrun', hlive'⟩ := cancelActives_others hr _ hi hrun hlive
        refine Or.inl ⟨id, cancelAllQueued_others hr ?_ hi' hrun' hlive'⟩
        intro other hother
        obtain ⟨hvalue, hother'⟩ := List.mem_filter.mp (List.mem_filter.mp hother).1
        obtain ⟨key, hkey⟩ := Table.mem_values_iff.mp hvalue
        exact ⟨other, hkeyedMid.keys key other hkey ▸ hkey, of_decide_eq_true hother'⟩
      · refine Or.inr ⟨leaseId, record, ?_, hrun⟩
        rw [hleases, if_neg, hrecord]
        intro hmem
        obtain ⟨lease, hlease, hid⟩ := List.mem_map.mp hmem
        obtain ⟨hlease, hother⟩ := List.mem_filter.mp hlease
        obtain ⟨other, hvalue, rfl⟩ := List.mem_map.mp hlease
        obtain ⟨key, hkey⟩ := Table.mem_values_iff.mp hvalue
        rw [hlast] at hkey
        have hsame : key = leaseId := (hkeys key other hkey).symm.trans hid
        obtain rfl : other = record := Option.some.inj ((hsame ▸ hkey).symm.trans hrecord)
        exact hr (Option.some.inj (hrun.symm.trans (of_decide_eq_true hother)))

theorem effect_completeSignals (slotId : String) (intentIds : List String) :
    Effect s (completeSignals s slotId intentIds).state (completeSignals s slotId intentIds).calls
      [] reported := by
  unfold completeSignals
  split
  · refine effect_setStates intentIds .completed (reports_runs _) rfl rfl
      fun id hid intent r hi hrun _ ↦ Or.inl (mem_publishRunSummaries.mpr ?_)
    exact List.mem_filterMap.mpr ⟨id, hid, by simp [CoordinatorState.teamRunOf, hi, hrun]⟩
  · exact effect_refl

theorem effect_pauseSlot (slotId : String) :
    Effect s (pauseSlot s slotId).state (pauseSlot s slotId).calls [] reported :=
  effect_idle (reports_slot slotId) rfl rfl

theorem effect_setRuntimeConstraint (slotId : String) (constraint : RuntimeConstraint) :
    Effect s (setRuntimeConstraint s slotId constraint).state
      (setRuntimeConstraint s slotId constraint).calls [] reported := by
  unfold setRuntimeConstraint
  split
  · next hends =>
      refine effect_restated (fun _ intent ↦ endedState slotId constraint intent)
        (reports_both _ _) rfl rfl fun id intent r hi hrun hlive ↦ ?_
      by_cases hs : intent.slotId = slotId
      · refine Or.inl (told_both (List.mem_filterMap.mpr ⟨intent, ?_, hrun⟩))
        refine List.mem_filter.mpr ⟨List.mem_filter.mpr ⟨Table.mem_values_iff.mpr ⟨id, hi⟩, ?_⟩, ?_⟩
        · simp [hs, hlive]
        · cases constraint <;> simp [RuntimeConstraint.endsWork] at hends <;>
            simp [constrainedState, hrun]
      · simp only [endedState, hs, false_and, if_false]
        exact Or.inr hlive
  · exact effect_idle (reports_slot slotId) rfl rfl

theorem effect_beginRuntimeRestart (slotId : String) (allowQueued : Bool) :
    Effect s (beginRuntimeRestart s slotId allowQueued).state
      (beginRuntimeRestart s slotId allowQueued).calls [] reported := by
  have hnone : ∀ {s' : CoordinatorState}, ∀ call ∈ ([] : List PortCall), IsReport s' call :=
    fun _ h ↦ absurd h List.not_mem_nil
  unfold beginRuntimeRestart
  simp only
  split
  · exact effect_idle hnone rfl rfl
  · split
    · exact effect_idle hnone rfl rfl
    · exact effect_idle hnone rfl rfl
    · exact effect_idle (reports_slot slotId) rfl rfl

theorem effect_abortRuntimeRestart (slotId : String) (gate : RuntimeRestartGate) :
    Effect s (abortRuntimeRestart s slotId gate).state (abortRuntimeRestart s slotId gate).calls []
      reported := by
  unfold abortRuntimeRestart
  split
  · exact effect_refl
  · split
    · exact effect_refl
    · exact effect_idle (reports_slot slotId) rfl rfl

theorem effect_unseen (hleases : s'.enqueueLeases = s.enqueueLeases)
    (hintents : s'.intents = s.intents) : Effect s s' [] [] reported :=
  effect_idle (fun _ h ↦ absurd h List.not_mem_nil) hleases hintents

theorem effect_requestMcpRefresh (slotId fingerprint : String) :
    Effect s (requestMcpRefresh s slotId fingerprint).state
      (requestMcpRefresh s slotId fingerprint).calls [] reported := by
  unfold requestMcpRefresh
  simp only
  split
  · exact effect_unseen rfl rfl
  · split <;> exact effect_unseen rfl rfl

theorem effect_deferMcpRefresh (slotId fingerprint : String) :
    Effect s (deferMcpRefresh s slotId fingerprint).state
      (deferMcpRefresh s slotId fingerprint).calls [] reported := by
  unfold deferMcpRefresh
  simp only
  split <;> exact effect_unseen rfl rfl

theorem effect_claimPendingMcpRefresh (slotId : String) :
    Effect s (claimPendingMcpRefresh s slotId).state (claimPendingMcpRefresh s slotId).calls []
      reported := by
  unfold claimPendingMcpRefresh
  split
  · exact effect_refl
  · split
    · exact effect_refl
    · split
      · exact effect_refl
      · exact effect_unseen rfl rfl

theorem effect_removeSlot (slotId : String) :
    Effect s (removeSlot s slotId).state (removeSlot s slotId).calls [] reported := by
  refine effect_setStates (removedIntentIds s slotId) (.cancelled "slot_removed") (reports_runs _)
    rfl rfl fun id hid intent r hi hrun _ ↦ Or.inl (mem_publishRunSummaries.mpr ?_)
  exact List.mem_filterMap.mpr ⟨id, hid, by simp [CoordinatorState.teamRunOf, hi, hrun]⟩

theorem mem_allRunIds {r : String} (hbusy : s.isBusy r = true) : r ∈ s.allRunIds := by
  refine mem_sortedDistinct.mpr (List.mem_append.mpr ?_)
  rcases CoordinatorState.isBusy_iff.mp hbusy with
    ⟨id, intent, hi, hrun, _⟩ | ⟨leaseId, record, hlease, hrun⟩
  · exact Or.inl (List.mem_filterMap.mpr ⟨intent, Table.mem_values_iff.mpr ⟨id, hi⟩, hrun⟩)
  · exact Or.inr (List.mem_filterMap.mpr ⟨record, Table.mem_values_iff.mpr ⟨leaseId, hlease⟩, hrun⟩)

theorem effect_stop : Effect s (stop s).state (stop s).calls [] reported where
  reports := reports_runs _
  leases id record hi := by
    have hnone : (stop s).state.enqueueLeases = ∅ := rfl
    simp [hnone] at hi
  kept r hbusy := Or.inl (mem_publishRunSummaries.mpr (mem_allRunIds hbusy))
  silent := fun h ↦ (h rfl).elim
  told := fun h ↦ (h rfl).elim
  others := fun h ↦ (h rfl).elim

theorem effect_rehash (rank : String → ℕ) : Effect s (rehash s rank) [] [] reported where
  reports _ h := absurd h List.not_mem_nil
  leases id record hi := by
    rw [← Table.lookup_reorder rank]
    exact hi
  kept r hbusy := by
    refine Or.inr (CoordinatorState.isBusy_iff.mpr ?_)
    have hintents : ∀ id, (rehash s rank).intents.lookup id = s.intents.lookup id :=
      fun _ ↦ Table.lookup_reorder rank
    have hleases : ∀ id, (rehash s rank).enqueueLeases.lookup id = s.enqueueLeases.lookup id :=
      fun _ ↦ Table.lookup_reorder rank
    simp only [hintents, hleases]
    exact CoordinatorState.isBusy_iff.mp hbusy
  silent := fun h ↦ (h rfl).elim
  told := fun h ↦ (h rfl).elim
  others := fun h ↦ (h rfl).elim

theorem effect_perform (hkeyed : Keyed c s)
    (hkeys : ∀ id record, s.enqueueLeases.lookup id = some record → record.lease.leaseId = id)
    {op : CoordinatorOp} (hop : ∀ answers request, op ≠ .acquireEnqueue answers request) :
    Effect s (c.perform s op).1 (c.perform s op).2 (c.blindlyEnded s op) op.reportedRuns := by
  cases op with
  | acquireEnqueue answers request => exact (hop answers request rfl).elim
  | commitEnqueue lease messageId now => exact effect_commitEnqueue hkeyed lease messageId now
  | abortEnqueue lease => exact effect_abortEnqueue lease
  | reconcileMailboxSnapshot slotId unread role staleCandidates now =>
      exact effect_reconcileMailboxSnapshot hkeyed slotId unread role staleCandidates now
  | next slotId => exact effect_next slotId
  | observeMessages slotId batchId messageIds => exact effect_observeMessages slotId batchId messageIds
  | markStarted batch turnId now => exact effect_markStarted batch turnId now
  | retryStart batch => exact effect_retryStart batch
  | completeBatchWithAck batch => exact effect_completeBatchWithAck hkeyed batch
  | failBatch batch classification => exact effect_terminalizeBatch batch rfl .failed
  | cancelBatch batch classification => exact effect_terminalizeBatch batch rfl .notFailed
  | interruptBatch batch reason messageId => exact effect_interruptBatch batch reason messageId
  | takeInterruptMetadata batchId => exact effect_unseen rfl rfl
  | discardQueuedExcept slotId messageId => exact effect_discardQueuedExcept slotId messageId
  | cancelRun teamRunId => exact effect_cancelRun hkeyed hkeys teamRunId
  | completeSignals slotId intentIds => exact effect_completeSignals slotId intentIds
  | pauseSlot slotId => exact effect_pauseSlot slotId
  | setRuntimeConstraint slotId constraint => exact effect_setRuntimeConstraint slotId constraint
  | beginRuntimeRestart slotId allowQueued => exact effect_beginRuntimeRestart slotId allowQueued
  | abortRuntimeRestart slotId gate => exact effect_abortRuntimeRestart slotId gate
  | requestMcpRefresh slotId fingerprint => exact effect_requestMcpRefresh slotId fingerprint
  | deferMcpRefresh slotId fingerprint => exact effect_deferMcpRefresh slotId fingerprint
  | claimPendingMcpRefresh slotId => exact effect_claimPendingMcpRefresh slotId
  | completeMcpRefresh slotId fingerprint => exact effect_unseen rfl rfl
  | releaseMcpRefresh slotId fingerprint => exact effect_unseen rfl rfl
  | settleMcpRefreshClaim slotId fingerprint => exact effect_unseen rfl rfl
  | removeSlot slotId => exact effect_removeSlot slotId
  | stop => exact effect_stop
  | rehash rank => exact effect_rehash rank

end Operations

end Zaowutai.Team
