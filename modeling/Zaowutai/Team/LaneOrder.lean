import Zaowutai.Team.RequeueOrder
import Zaowutai.Team.SoleOwner

/-!
# Lanes are served in commit order

Intent ids are drawn when the work is committed, so the index of an id tells
when that was.  The messages that a slot still has to deliver from a lane, the
claimed ones first, stand in commit order: an operation drops some of them or
puts fresh ones behind them, and a claim changes only who holds them.  The two
operations that break this, an intervention of the lead and a runtime that
failed, are left out.
-/

namespace Zaowutai.Team

open Zaowutai.Lib SlotWorkCoordinator

def CommittedBefore (c : SlotWorkCoordinator) (x y : String) : Prop :=
  ∃ i j, i < j ∧ x = c.generateId i ∧ y = c.generateId j

def CoordinatorOp.keepsArrival : CoordinatorOp → Bool
  | .commitEnqueue lease _ _ => lease.source != .leadIntervention
  | .setRuntimeConstraint _ (.failed _ _) => false
  | _ => true

def SlotWorkCoordinator.claimedBy (c : SlotWorkCoordinator) (slotId : String)
    (priority : WorkPriority) (s : CoordinatorState) : CoordinatorOp → List String
  | .next other =>
      match (c.next s other).result with
      | .claim batch =>
          if other = slotId ∧ batch.highestPriority = priority then batch.intentIds else []
      | _ => []
  | _ => []

/-- The intents of the lane in the order in which they were first claimed. -/
structure ClaimLog where
  state : CoordinatorState
  claimed : List String

def ClaimLog.step (c : SlotWorkCoordinator) (slotId : String) (priority : WorkPriority)
    (log : ClaimLog) (op : CoordinatorOp) : ClaimLog where
  state := c.step log.state op
  claimed := (c.claimedBy slotId priority log.state op).foldl pushNew log.claimed

def SlotWorkCoordinator.firstClaims (c : SlotWorkCoordinator) (slotId : String)
    (priority : WorkPriority) (ops : List CoordinatorOp) : List String :=
  (run (ClaimLog.step c slotId priority) ⟨.empty, []⟩ ops).claimed

namespace CoordinatorState

def isMessageOf (s : CoordinatorState) (priority : WorkPriority) (intentId : String) : Bool :=
  (s.intents.lookup intentId).any fun intent ↦
    intent.mailboxMessageId.isSome && decide (intent.priority = priority)

/-- The messages that the slot still has to deliver from the lane, the claimed ones first. -/
def undelivered (s : CoordinatorState) (slotId : String) (priority : WorkPriority) : List String :=
  ((s.deskAt slotId).delivery priority).filter (s.isMessageOf priority)

end CoordinatorState

/-- What is undelivered is part of what was, with ids behind it that were drawn meanwhile. -/
structure Arrives (c : SlotWorkCoordinator) (s s' : CoordinatorState) : Prop where
  generated : s.generated ≤ s'.generated
  lines : ∀ slotId priority, ∃ more : List String,
    (s'.undelivered slotId priority).Sublist (s.undelivered slotId priority ++ more) ∧
      more.Pairwise (CommittedBefore c) ∧
        ∀ id ∈ more, ∃ k, s.generated ≤ k ∧ k < s'.generated ∧ id = c.generateId k

section Arrival

variable {c : SlotWorkCoordinator} {s s' s'' : CoordinatorState} {slotId : String}
  {priority : WorkPriority}

theorem isMessageOf_of_kept (hkept : IntentsKept c s s') {id : String} {intent : WorkIntent}
    (hi : s.intents.lookup id = some intent) :
    s'.isMessageOf priority id = s.isMessageOf priority id := by
  obtain ⟨state, hi'⟩ := hkept.old id intent hi
  simp [CoordinatorState.isMessageOf, hi, hi']

theorem exists_of_delivery (h : WellFormed c s) {id : String}
    (hid : id ∈ (s.deskAt slotId).delivery priority) :
    ∃ intent, s.intents.lookup id = some intent := by
  obtain hclaimed | hqueued := List.mem_append.mp hid
  · obtain ⟨intent, hi, _⟩ := ((h.desks slotId).claimed.mem_iff id).mp hclaimed
    exact ⟨intent, hi⟩
  · obtain ⟨intent, hi, _⟩ := (((h.desks slotId).lanes priority).mem_iff id).mp hqueued
    exact ⟨intent, hi⟩

theorem filter_isMessageOf (hkept : IntentsKept c s s') {ids : List String}
    (hids : ∀ id ∈ ids, ∃ intent, s.intents.lookup id = some intent) :
    ids.filter (s'.isMessageOf priority) = ids.filter (s.isMessageOf priority) := by
  apply List.filter_congr
  intro id hid
  obtain ⟨intent, hi⟩ := hids id hid
  exact isMessageOf_of_kept hkept hi

theorem Arrives.trans (h : Arrives c s s') (h' : Arrives c s' s'') : Arrives c s s'' where
  generated := h.generated.trans h'.generated
  lines slotId priority := by
    obtain ⟨more, hsub, hsorted, hdrawn⟩ := h.lines slotId priority
    obtain ⟨more', hsub', hsorted', hdrawn'⟩ := h'.lines slotId priority
    refine ⟨more ++ more', ?_, List.pairwise_append.mpr ⟨hsorted, hsorted', ?_⟩, ?_⟩
    · rw [← List.append_assoc]
      exact hsub'.trans (hsub.append (List.Sublist.refl more'))
    · intro x hx y hy
      obtain ⟨i, _, hi, rfl⟩ := hdrawn x hx
      obtain ⟨j, hj, _, rfl⟩ := hdrawn' y hy
      exact ⟨i, j, hi.trans_le hj, rfl, rfl⟩
    · intro id hid
      obtain hid | hid := List.mem_append.mp hid
      · obtain ⟨k, hk, hk', rfl⟩ := hdrawn id hid
        exact ⟨k, hk, hk'.trans_le h'.generated, rfl⟩
      · obtain ⟨k, hk, hk', rfl⟩ := hdrawn' id hid
        exact ⟨k, h.generated.trans hk, hk', rfl⟩

theorem Shrinks.arrives (h : WellFormed c s) (hkept : IntentsKept c s s')
    (hshrinks : Shrinks s s') : Arrives c s s' where
  generated := hkept.generated
  lines slotId priority := by
    refine ⟨[], ?_, List.Pairwise.nil, by simp⟩
    rw [List.append_nil, CoordinatorState.undelivered, CoordinatorState.undelivered,
      ← filter_isMessageOf hkept fun id hid ↦ exists_of_delivery h hid]
    exact (hshrinks slotId priority).filter _

theorem arrives_append (h : WellFormed c s) (hkept : IntentsKept c s s') (slotId : String)
    (lane : WorkPriority) (hgen : s'.generated = s.generated + 1)
    (hdesks : ∀ other, s'.deskAt other = if other = slotId then
      (s.deskAt slotId).append lane [c.generateId s.generated] else s.deskAt other) :
    Arrives c s s' where
  generated := hkept.generated
  lines other priority := by
    refine ⟨[c.generateId s.generated], ?_, List.pairwise_singleton _ _, ?_⟩
    · have hold : ((s.deskAt other).delivery priority).filter (s'.isMessageOf priority) =
          s.undelivered other priority :=
        filter_isMessageOf hkept fun id hid ↦ exists_of_delivery h hid
      rw [← hold]
      refine List.Sublist.trans ?_ (List.Sublist.append (List.Sublist.refl _)
        (List.filter_sublist (p := s'.isMessageOf priority)))
      rw [← List.filter_append]
      refine List.Sublist.filter _ ?_
      rw [hdesks]
      split
      · next heq =>
          rw [heq, Desk.delivery, Desk.delivery, List.append_assoc]
          refine List.Sublist.append (List.Sublist.refl _) ?_
          simp only [Desk.append]
          split
          · exact List.Sublist.refl _
          · exact List.sublist_append_left _ _
      · exact List.sublist_append_left _ _
    · intro id hid
      obtain rfl := List.mem_singleton.mp hid
      exact ⟨s.generated, le_rfl, by omega, rfl⟩

theorem undelivered_of_free (h : WellFormed c s) (hfree : (s.deskAt slotId).claimedIds = []) :
    s.undelivered slotId priority = s.messageIntents slotId priority := by
  rw [CoordinatorState.undelivered, Desk.delivery, hfree, List.nil_append,
    CoordinatorState.messageIntents, lane_of_deskAt]
  apply List.filter_congr
  intro id hid
  obtain ⟨intent, hi, hq⟩ := (((h.desks slotId).lanes priority).mem_iff id).mp hid
  simp [CoordinatorState.isMessageOf, CoordinatorState.messageOf, hi, hq.2.1]

theorem mem_messageIntents (h : WellFormed c s) {id : String}
    (hid : id ∈ s.messageIntents slotId priority) (other : WorkPriority) :
    s.isMessageOf other id = decide (priority = other) := by
  obtain ⟨hlane, messageId, hmessage⟩ := exists_message_of_mem hid
  rw [lane_of_deskAt] at hlane
  obtain ⟨intent, hi, hq⟩ := (((h.desks slotId).lanes priority).mem_iff id).mp hlane
  have hcarries : intent.mailboxMessageId = some messageId := by
    simpa [CoordinatorState.messageOf, hi] using hmessage
  simp [CoordinatorState.isMessageOf, hi, hcarries, hq.2.1]

theorem filter_notMem_left {taken rest : List String} (h : (taken ++ rest).Nodup) :
    (taken ++ rest).filter (fun id ↦ decide (id ∉ taken)) = rest := by
  have htaken : taken.filter (fun id ↦ decide (id ∉ taken)) = [] := by simp
  have hrest : rest.filter (fun id ↦ decide (id ∉ taken)) = rest := by
    refine List.filter_eq_self.mpr fun id hid ↦ decide_eq_true fun hin ↦ ?_
    exact (List.nodup_append.mp h).2.2 id hin id hid rfl
  rw [List.filter_append, htaken, hrest, List.nil_append]

theorem undelivered_next (h : WellFormed c s) {batch : WorkBatch}
    (hclaim : (c.next s slotId).result = .claim batch) (other : String) (priority : WorkPriority) :
    (c.next s slotId).state.undelivered other priority = s.undelivered other priority := by
  have hkept : IntentsKept c s (c.next s slotId).state := kept_step h.keyed (.next slotId)
  have hleft := (selects_next h hclaim).left other priority
  obtain ⟨slot, hslot, hfree, _, _, lane, _, hmessages, hbatch, hstate⟩ := next_claim hclaim
  have hcore : batch.core = batch := by
    rw [hbatch]
    rfl
  have hids : batch.intentIds = s.selectMessageIntents (s.messageIntents slotId lane) := by
    rw [hbatch]
    rfl
  have hlane : batch.highestPriority = lane := by
    rw [hbatch]
    rfl
  obtain ⟨rest, hrest⟩ := (takesRun_select (s := s) hmessages).sublist
  rw [← hids] at hrest
  have hdesk := deskAt_claimed hslot hcore other
  rw [← hstate] at hdesk
  by_cases hsame : other = slotId
  · subst hsame
    rw [if_pos rfl] at hdesk
    have hfreeDesk : (s.deskAt other).claimedIds = [] := by
      rw [deskAt_of_lookup hslot, SlotState.desk, hfree]
      rfl
    have hclaimed : ((c.next s other).state.deskAt other).claimedIds = batch.intentIds := by
      rw [hdesk]
      rfl
    have hmem : ∀ id ∈ batch.intentIds, id ∈ s.messageIntents other lane := fun id hid ↦ by
      rw [← hrest]
      exact List.mem_append_left _ hid
    have hstored : ∀ id ∈ s.lane other priority, ∃ intent, s.intents.lookup id = some intent := by
      intro id hid
      rw [lane_of_deskAt] at hid
      exact exists_of_delivery h (List.mem_append_right _ hid)
    rw [undelivered_of_free h hfreeDesk, CoordinatorState.undelivered, Desk.delivery, hclaimed,
      ← lane_of_deskAt, hleft, List.filter_append, hlane]
    have hids' : batch.intentIds.filter ((c.next s other).state.isMessageOf priority) =
        batch.intentIds.filter fun _ ↦ decide (lane = priority) := by
      apply List.filter_congr
      intro id hid
      obtain ⟨intent, hi⟩ : ∃ intent, s.intents.lookup id = some intent := by
        have hlane := (exists_message_of_mem (hmem id hid)).1
        rw [lane_of_deskAt] at hlane
        exact exists_of_delivery h (List.mem_append_right _ hlane)
      rw [isMessageOf_of_kept hkept hi, mem_messageIntents h (hmem id hid)]
    have hlaneMessages : (s.lane other priority).filter
        ((c.next s other).state.isMessageOf priority) = s.messageIntents other priority := by
      rw [filter_isMessageOf hkept hstored, ← undelivered_of_free h hfreeDesk,
        CoordinatorState.undelivered, Desk.delivery, hfreeDesk, List.nil_append, lane_of_deskAt]
    rw [hids']
    by_cases hp : lane = priority
    · subst hp
      have hnodup : (batch.intentIds ++ rest).Nodup := by
        rw [hrest, CoordinatorState.messageIntents, lane_of_deskAt]
        exact ((h.desks other).lanes lane).nodup.filter _
      rw [if_pos ⟨rfl, rfl⟩, List.filter_filter]
      simp only [decide_true, List.filter_true, Bool.and_comm]
      rw [← List.filter_filter, hlaneMessages, ← hrest, filter_notMem_left hnodup]
    · rw [if_neg fun hboth ↦ hp hboth.2.symm, hlaneMessages]
      simp [hp]
  · have hold : ((s.deskAt other).delivery priority).filter
        ((c.next s slotId).state.isMessageOf priority) = s.undelivered other priority :=
      filter_isMessageOf hkept fun id hid ↦ exists_of_delivery h hid
    rw [← hold, CoordinatorState.undelivered, hdesk, if_neg hsame]

end Arrival

section Drops

variable {c : SlotWorkCoordinator} {s s' : CoordinatorState} {slotId : String}

theorem shrinks_of_deskAt (h : ∀ other, s'.deskAt other = s.deskAt other) : Shrinks s s' := by
  intro other priority
  rw [h]

theorem shrinks_setSlot {slot : SlotState} (hslots : s'.slots = s.slots.insert slotId slot)
    (hdesk : ∀ priority, (slot.desk.delivery priority).Sublist
      ((s.deskAt slotId).delivery priority)) : Shrinks s s' :=
  shrinks_of_desk (fun _ ↦ deskAt_insert hslots) hdesk

theorem shrinks_sameDesk {slot : SlotState} (hslots : s'.slots = s.slots.insert slotId slot)
    (hdesk : slot.desk = s.deskAt slotId) : Shrinks s s' :=
  shrinks_setSlot hslots fun priority ↦ by rw [hdesk]

theorem shrinks_modifySlot {f : SlotState → SlotState} (hslots : s'.slots = s.slots.modify slotId f)
    (hf : ∀ slot priority, ((f slot).desk.delivery priority).Sublist
      (slot.desk.delivery priority)) : Shrinks s s' := by
  intro other priority
  unfold CoordinatorState.deskAt
  rw [hslots, Table.lookup_modify]
  split
  · cases s.slots.lookup other with
    | none => exact List.Sublist.refl _
    | some slot => exact hf slot priority
  · exact List.Sublist.refl _

theorem delivery_release (desk : Desk) (priority : WorkPriority) :
    (desk.release.delivery priority).Sublist (desk.delivery priority) :=
  List.sublist_append_right desk.claimedIds (desk.lane priority)

theorem delivery_remove (desk : Desk) (gone : String → Bool) (priority : WorkPriority) :
    ((desk.remove gone).delivery priority).Sublist (desk.delivery priority) :=
  List.Sublist.append (List.Sublist.refl desk.claimedIds) List.filter_sublist

theorem shrinks_acquireEnqueue (answers : PortAnswers) (request : EnqueueRequest) :
    Shrinks s (c.acquireEnqueue s answers request).state := by
  simp only [acquireEnqueue]
  split
  · exact shrinks_sameDesk rfl (desk_slotOrNew _)
  · exact shrinks_sameDesk rfl (desk_slotOrNew _)

theorem shrinks_abortEnqueue (lease : EnqueueLease) :
    Shrinks s (c.abortEnqueue s lease).state := by
  unfold abortEnqueue
  split
  · exact Shrinks.refl s
  · split
    · exact Shrinks.refl s
    · exact shrinks_of_deskAt fun _ ↦ rfl

theorem shrinks_observeMessages (slotId batchId : String) (messageIds : List String) :
    Shrinks s (observeMessages s slotId batchId messageIds).state := by
  unfold observeMessages
  split
  · exact Shrinks.refl s
  · split
    · exact Shrinks.refl s
    · refine shrinks_modifySlot (f := fun slot ↦ slot.observe messageIds) rfl fun slot p ↦ ?_
      rw [desk_observe]

theorem shrinks_markStarted (batch : WorkBatch) (turnId : String) (now : ℤ) :
    Shrinks s (c.markStarted s batch turnId now).state := by
  unfold markStarted
  split
  · refine shrinks_modifySlot (f := fun slot ↦ slot.start turnId now) rfl fun slot p ↦ ?_
    rw [desk_start]
  · split <;> exact Shrinks.refl s

theorem shrinks_completeBatchWithAck (batch : WorkBatch) :
    Shrinks s (c.completeBatchWithAck s batch).state := by
  unfold completeBatchWithAck
  split
  · exact Shrinks.refl s
  · split
    · exact Shrinks.refl s
    · refine shrinks_modifySlot (f := fun slot ↦ slot.finish _ _) rfl fun slot p ↦ ?_
      rw [desk_finish]
      exact (delivery_release _ p).trans (delivery_remove _ _ p)

theorem shrinks_terminalizeBatch (batch : WorkBatch) (terminal : WorkIntentState)
    (delivery : DeliveryOutcome) :
    Shrinks s (c.terminalizeBatch s batch terminal delivery).state := by
  unfold terminalizeBatch
  split
  · exact Shrinks.refl s
  · next slot hslot =>
      split
      · exact Shrinks.refl s
      · have hdesk : ∀ p, ((releaseSlot slot batch delivery).1.desk.delivery p).Sublist
            ((s.deskAt batch.slotId).delivery p) := by
          intro p
          rw [desk_releaseSlot, deskAt_of_lookup hslot]
          exact delivery_release _ p
        exact shrinks_setSlot rfl hdesk

theorem shrinks_interruptBatch (batch : WorkBatch) (reason : Option String) (messageId : String) :
    Shrinks s (c.interruptBatch s batch reason messageId).state := by
  unfold interruptBatch
  split
  · exact shrinks_modifySlot (f := fun slot ↦ slot.interrupt batch.mailboxMessageIds) rfl
      fun slot p ↦ delivery_release slot.desk p
  · exact Shrinks.refl s

theorem shrinks_discardQueuedExcept (slotId messageId : String) :
    Shrinks s (discardQueuedExcept s slotId messageId).state := by
  refine shrinks_modifySlot (f := fun slot ↦ slot.removeAllQueued _) rfl fun slot p ↦ ?_
  rw [desk_removeAllQueued]
  exact delivery_remove _ _ p

theorem shrinks_completeSignals (slotId : String) (intentIds : List String) :
    Shrinks s (completeSignals s slotId intentIds).state := by
  unfold completeSignals
  split
  · refine shrinks_modifySlot (f := fun slot ↦ slot.removeAllQueued intentIds) rfl fun slot p ↦ ?_
    rw [desk_removeAllQueued]
    exact delivery_remove _ _ p
  · exact Shrinks.refl s

theorem shrinks_removeSlot (slotId : String) : Shrinks s (removeSlot s slotId).state := by
  refine shrinks_modifySlot (f := SlotState.remove) rfl fun slot p ↦ ?_
  rw [desk_remove_slot]
  exact List.nil_sublist _

theorem shrinks_stop : Shrinks s (stop s).state := by
  intro other priority
  have hslots : (stop s).state.slots = s.slots.mapValues fun _ ↦ SlotState.stop := rfl
  unfold CoordinatorState.deskAt
  rw [hslots, Table.lookup_mapValues]
  cases s.slots.lookup other with
  | none => exact List.Sublist.refl _
  | some slot =>
      rw [Option.map_some, Option.elim_some, desk_stop]
      exact List.nil_sublist _

theorem shrinks_setRuntimeConstraint (slotId : String) {constraint : RuntimeConstraint}
    (hkeeps : (CoordinatorOp.setRuntimeConstraint slotId constraint).keepsArrival = true) :
    Shrinks s (setRuntimeConstraint s slotId constraint).state := by
  unfold setRuntimeConstraint
  split
  · next hends =>
      refine shrinks_setSlot rfl fun p ↦ ?_
      cases constraint with
      | sessionStopped =>
          have hnone : ((rebuiltSlot s slotId .sessionStopped).desk.delivery p) = [] := by
            rw [desk_rebuiltSlot]
            simp [Desk.delivery, Desk.claimedIds, Requeued, constrainedState]
          rw [hnone]
          exact List.nil_sublist _
      | failed operationId classification => cases hkeeps
      | _ => cases hends
  · exact shrinks_sameDesk rfl (desk_slotOrNew .teammate)

theorem shrinks_beginRuntimeRestart (slotId : String) (allowQueued : Bool) :
    Shrinks s (beginRuntimeRestart s slotId allowQueued).state := by
  have hslot : Shrinks s (s.setSlot slotId (s.slotOrNew slotId .teammate)) :=
    shrinks_sameDesk rfl (desk_slotOrNew _)
  unfold beginRuntimeRestart
  simp only
  split
  · exact hslot
  · split
    · exact hslot
    · exact hslot
    · refine hslot.trans (shrinks_sameDesk rfl ?_)
      rw [deskAt_insert (s := s) rfl, if_pos rfl]
      rfl

theorem shrinks_abortRuntimeRestart (slotId : String) (gate : RuntimeRestartGate) :
    Shrinks s (abortRuntimeRestart s slotId gate).state := by
  unfold abortRuntimeRestart
  split
  · exact Shrinks.refl s
  · next slot hslot =>
      split
      · exact Shrinks.refl s
      · exact shrinks_sameDesk rfl (deskAt_of_lookup hslot).symm

theorem shrinks_requestMcpRefresh (slotId fingerprint : String) :
    Shrinks s (requestMcpRefresh s slotId fingerprint).state := by
  unfold requestMcpRefresh
  simp only
  split
  · exact shrinks_sameDesk rfl (desk_slotOrNew _)
  · split <;> exact shrinks_sameDesk rfl (desk_slotOrNew .teammate)

theorem shrinks_deferMcpRefresh (slotId fingerprint : String) :
    Shrinks s (deferMcpRefresh s slotId fingerprint).state := by
  unfold deferMcpRefresh
  simp only
  split <;> exact shrinks_sameDesk rfl (desk_slotOrNew .teammate)

theorem shrinks_claimPendingMcpRefresh (slotId : String) :
    Shrinks s (claimPendingMcpRefresh s slotId).state := by
  unfold claimPendingMcpRefresh
  split
  · exact Shrinks.refl s
  · next slot hslot =>
      split
      · exact Shrinks.refl s
      · split
        · exact Shrinks.refl s
        · exact shrinks_sameDesk rfl (deskAt_of_lookup hslot).symm

theorem shrinks_step (h : WellFormed c s) {op : CoordinatorOp} (hop : GenuineBatches c s op)
    (hkeeps : op.keepsArrival = true) (hnext : ∀ slotId, op ≠ .next slotId)
    (hcommit : ∀ lease messageId now, op ≠ .commitEnqueue lease messageId now)
    (hreconcile : ∀ id unread role stale now,
      op ≠ .reconcileMailboxSnapshot id unread role stale now) :
    Shrinks s (c.step s op) := by
  cases op with
  | acquireEnqueue answers request => exact shrinks_acquireEnqueue answers request
  | commitEnqueue lease messageId now => exact absurd rfl (hcommit lease messageId now)
  | abortEnqueue lease => exact shrinks_abortEnqueue lease
  | reconcileMailboxSnapshot id unread role stale now =>
      exact absurd rfl (hreconcile id unread role stale now)
  | next slotId => exact absurd rfl (hnext slotId)
  | observeMessages slotId batchId messageIds =>
      exact shrinks_observeMessages slotId batchId messageIds
  | markStarted batch turnId now => exact shrinks_markStarted batch turnId now
  | retryStart batch => exact shrinks_retryStart (hop batch rfl)
  | completeBatchWithAck batch => exact shrinks_completeBatchWithAck batch
  | failBatch batch classification => exact shrinks_terminalizeBatch batch _ _
  | cancelBatch batch classification => exact shrinks_terminalizeBatch batch _ _
  | interruptBatch batch reason messageId => exact shrinks_interruptBatch batch reason messageId
  | takeInterruptMetadata batchId => exact shrinks_of_deskAt fun _ ↦ rfl
  | discardQueuedExcept slotId messageId => exact shrinks_discardQueuedExcept slotId messageId
  | cancelRun teamRunId => exact shrinks_cancelRun h teamRunId
  | completeSignals slotId intentIds => exact shrinks_completeSignals slotId intentIds
  | pauseSlot slotId => exact shrinks_sameDesk rfl (desk_slotOrNew .teammate)
  | setRuntimeConstraint slotId constraint => exact shrinks_setRuntimeConstraint slotId hkeeps
  | beginRuntimeRestart slotId allowQueued =>
      exact shrinks_beginRuntimeRestart slotId allowQueued
  | abortRuntimeRestart slotId gate => exact shrinks_abortRuntimeRestart slotId gate
  | requestMcpRefresh slotId fingerprint => exact shrinks_requestMcpRefresh slotId fingerprint
  | deferMcpRefresh slotId fingerprint => exact shrinks_deferMcpRefresh slotId fingerprint
  | claimPendingMcpRefresh slotId => exact shrinks_claimPendingMcpRefresh slotId
  | completeMcpRefresh slotId fingerprint =>
      exact shrinks_modifySlot (f := fun slot ↦ slot.completeRefresh fingerprint) rfl
        fun slot p ↦ List.Sublist.refl _
  | releaseMcpRefresh slotId fingerprint =>
      refine shrinks_modifySlot (f := fun slot ↦ slot.releaseRefresh fingerprint) rfl
        fun slot p ↦ ?_
      rw [desk_releaseRefresh]
  | settleMcpRefreshClaim slotId fingerprint =>
      refine shrinks_modifySlot (f := fun slot ↦ slot.settleRefresh fingerprint) rfl
        fun slot p ↦ ?_
      rw [desk_settleRefresh]
  | removeSlot slotId => exact shrinks_removeSlot slotId
  | stop => exact shrinks_stop
  | rehash rank => exact shrinks_of_deskAt fun other ↦ deskAt_rehash rank other

end Drops

section Arrivals

variable {c : SlotWorkCoordinator} {s s' : CoordinatorState} {slotId : String}

theorem arrives_commitEnqueue (h : WellFormed c s) {lease : EnqueueLease}
    (hsource : lease.source ≠ .leadIntervention) (messageId : Option String) (now : ℤ) :
    Arrives c s (c.commitEnqueue s lease messageId now).state := by
  have hkept : IntentsKept c s (c.commitEnqueue s lease messageId now).state :=
    kept_step h.keyed (.commitEnqueue lease messageId now)
  revert hkept
  unfold commitEnqueue
  split
  · exact fun hkept ↦ (Shrinks.refl s).arrives h hkept
  · next slot disposition hcheck =>
      intro hkept
      have hslot := (checkCommit_ok hcheck).1
      have hdesk : (enqueueIntent slot lease.source (c.generateId s.generated)).desk =
          (s.deskAt lease.slotId).append lease.source.priority [c.generateId s.generated] := by
        rw [enqueueIntent, if_neg hsource, desk_pushBack, deskAt_of_lookup hslot]
        rfl
      refine arrives_append h hkept lease.slotId lease.source.priority rfl fun other ↦ ?_
      rw [← hdesk]
      exact deskAt_insert rfl

theorem shrinks_clearStale (slotId : String) (unread : List String) (role : TeamRunTargetRole)
    (staleCandidates : List String) :
    Shrinks s (clearStale s slotId unread role staleCandidates) := by
  refine shrinks_setSlot rfl fun p ↦ ?_
  rw [desk_removeAllQueued, desk_reconciledSlot]
  exact delivery_remove _ _ p

theorem arrives_createRecovery (h : WellFormed c s) {slot : SlotState}
    (hslot : s.slots.lookup slotId = some slot) (messageId : String) (role : TeamRunTargetRole)
    (now : ℤ) : Arrives c s (c.createRecovery s slotId messageId role now) := by
  have hkept : IntentsKept c s (c.createRecovery s slotId messageId role now) :=
    kept_insert h.keyed (c.recoveryIntent (c.generateId s.generated) slotId messageId role now)
      rfl rfl rfl
  refine arrives_append h hkept slotId .background rfl fun other ↦ ?_
  have hslots : (c.createRecovery s slotId messageId role now).slots =
      s.slots.modify slotId fun slot ↦ slot.pushBack .background (c.generateId s.generated) := rfl
  rw [deskAt_modify_of_lookup hslots hslot, desk_pushBack, deskAt_of_lookup hslot]

theorem arrives_recoverAll (h : WellFormed c s) (hslot : (s.slots.lookup slotId).isSome = true)
    (role : TeamRunTargetRole) (now : ℤ) (created unread : List String) :
    Arrives c s (unread.foldl (c.recoverMessage slotId role now) (s, created)).1 := by
  induction unread generalizing s created with
  | nil => exact (Shrinks.refl s).arrives h (kept_lookup (fun _ ↦ rfl) le_rfl)
  | cons messageId unread ih =>
      obtain ⟨hstep, hslot'⟩ := advances_recoverMessage h hslot role now created messageId
      have harrives : Arrives c s (c.recoverMessage slotId role now (s, created) messageId).1 := by
        unfold recoverMessage
        split
        · exact (Shrinks.refl s).arrives h (kept_lookup (fun _ ↦ rfl) le_rfl)
        · obtain ⟨slot, hlookup⟩ := Option.isSome_iff_exists.mp hslot
          exact arrives_createRecovery h hlookup messageId role now
      exact harrives.trans (ih hstep.wellFormed hslot' _)

theorem arrives_reconcileMailboxSnapshot (h : WellFormed c s) (slotId : String)
    (unread : List String) (role : TeamRunTargetRole) (staleCandidates : List String) (now : ℤ) :
    Arrives c s
      (c.reconcileMailboxSnapshot s slotId unread role staleCandidates now).state := by
  have hkept : IntentsKept c s (clearStale s slotId unread role staleCandidates) :=
    kept_restated (f := fun id intent ↦
      if id ∈ staleIntents s slotId unread staleCandidates then .completed else intent.state)
      rfl le_rfl
  have hclear := advances_clearStale h slotId unread role staleCandidates
  refine ((shrinks_clearStale slotId unread role staleCandidates).arrives h hkept).trans
    (arrives_recoverAll hclear.wellFormed ?_ role now [] unread)
  simp [clearStale, CoordinatorState.setSlot]

theorem arrives_next (h : WellFormed c s) (slotId : String) :
    Arrives c s (c.next s slotId).state := by
  have hkept : IntentsKept c s (c.next s slotId).state := kept_step h.keyed (.next slotId)
  obtain ⟨hsame, _⟩ | ⟨slot, lane, ids, _, _, _, _, hclaim, _⟩ :=
    next_cases (c := c) (s := s) slotId
  · rw [hsame] at hkept ⊢
    exact (Shrinks.refl s).arrives h hkept
  · refine ⟨hkept.generated, fun other p ↦ ⟨[], ?_, List.Pairwise.nil, by simp⟩⟩
    rw [List.append_nil, undelivered_next h hclaim]

theorem arrives_step (h : WellFormed c s) {op : CoordinatorOp} (hop : GenuineBatches c s op)
    (hkeeps : op.keepsArrival = true) : Arrives c s (c.step s op) := by
  have hshrinks : (∀ slotId, op ≠ .next slotId) →
      (∀ lease messageId now, op ≠ .commitEnqueue lease messageId now) →
      (∀ id unread role stale now, op ≠ .reconcileMailboxSnapshot id unread role stale now) →
      Arrives c s (c.step s op) := fun hnext hcommit hreconcile ↦
    (shrinks_step h hop hkeeps hnext hcommit hreconcile).arrives h (kept_step h.keyed op)
  cases op with
  | next slotId => exact arrives_next h slotId
  | commitEnqueue lease messageId now =>
      exact arrives_commitEnqueue h (by simpa [CoordinatorOp.keepsArrival] using hkeeps) _ _
  | reconcileMailboxSnapshot id unread role stale now =>
      exact arrives_reconcileMailboxSnapshot h id unread role stale now
  | _ => exact hshrinks (by simp) (by simp) (by simp)

end Arrivals

section Lines

variable {c : SlotWorkCoordinator} {s s' : CoordinatorState} {slotId : String}
  {priority : WorkPriority} {claimed : List String}

theorem foldl_pushNew_eq {more : List String} (h : more.Nodup) (ids : List String) :
    more.foldl pushNew ids = ids ++ more.filter (· ∉ ids) := by
  induction more generalizing ids with
  | nil => simp
  | cons id more ih =>
      obtain ⟨hid, hmore⟩ := List.nodup_cons.mp h
      rw [List.foldl_cons, ih hmore]
      unfold pushNew
      split
      · next hold => simp [hold]
      · next hnew =>
          have hrest : more.filter (fun x ↦ decide (x ∉ ids ++ [id])) =
              more.filter fun x ↦ decide (x ∉ ids) := by
            apply List.filter_congr
            intro x hx
            have hne : x ≠ id := fun heq ↦ hid (heq ▸ hx)
            simp [hne]
          rw [hrest]
          simp [hnew]

structure InLine (c : SlotWorkCoordinator) (s : CoordinatorState) (slotId : String)
    (priority : WorkPriority) (claimed : List String) : Prop where
  wellFormed : WellFormed c s
  stored : ∀ id ∈ claimed, ∃ intent, s.intents.lookup id = some intent
  undelivered : (s.undelivered slotId priority).Pairwise (CommittedBefore c)
  line : (claimed ++ (s.undelivered slotId priority).filter (· ∉ claimed)).Pairwise
    (CommittedBefore c)

theorem inLine_empty : InLine c .empty slotId priority [] where
  wellFormed := wellFormed_empty
  stored := by simp
  undelivered := List.Pairwise.nil
  line := List.Pairwise.nil

theorem drawn_of_undelivered (h : WellFormed c s) {id : String}
    (hid : id ∈ s.undelivered slotId priority) : ∃ k < s.generated, id = c.generateId k := by
  obtain ⟨intent, hi⟩ := exists_of_delivery h (List.mem_filter.mp hid).1
  exact h.drawn id intent hi

theorem InLine.arrives (h : InLine c s slotId priority claimed) (hkept : IntentsKept c s s')
    (hwell : WellFormed c s') (harrives : Arrives c s s') :
    InLine c s' slotId priority claimed := by
  obtain ⟨more, hsub, hmore, hdrawn⟩ := harrives.lines slotId priority
  have hlater : ∀ x, (∃ k < s.generated, x = c.generateId k) → ∀ y ∈ more,
      CommittedBefore c x y := by
    rintro x ⟨i, hi, rfl⟩ y hy
    obtain ⟨j, hj, _, rfl⟩ := hdrawn y hy
    exact ⟨i, j, hi.trans_le hj, rfl, rfl⟩
  refine ⟨hwell, fun id hid ↦ ?_, ?_, ?_⟩
  · obtain ⟨intent, hi⟩ := h.stored id hid
    obtain ⟨state, hi'⟩ := hkept.old id intent hi
    exact ⟨_, hi'⟩
  · refine List.Pairwise.sublist hsub (List.pairwise_append.mpr ⟨h.undelivered, hmore, ?_⟩)
    exact fun x hx y hy ↦ hlater x (drawn_of_undelivered h.wellFormed hx) y hy
  · have hpart := (List.Sublist.refl claimed).append (hsub.filter fun id ↦ decide (id ∉ claimed))
    rw [List.filter_append, ← List.append_assoc] at hpart
    refine List.Pairwise.sublist hpart (List.pairwise_append.mpr ⟨h.line, hmore.filter _, ?_⟩)
    intro x hx y hy
    refine hlater x ?_ y (List.mem_filter.mp hy).1
    obtain hx | hx := List.mem_append.mp hx
    · obtain ⟨intent, hi⟩ := h.stored x hx
      exact h.wellFormed.drawn x intent hi
    · exact drawn_of_undelivered h.wellFormed (List.mem_filter.mp hx).1

theorem undelivered_of_claim (h : WellFormed c s) {batch : WorkBatch}
    (hclaim : (c.next s slotId).result = .claim batch) :
    batch.intentIds <+: s.undelivered slotId batch.highestPriority := by
  have hselects := selects_next h hclaim
  obtain ⟨slot, hslot, hfree, _⟩ := hselects.ready
  have hfreeDesk : (s.deskAt slotId).claimedIds = [] := by
    rw [deskAt_of_lookup hslot, SlotState.desk, hfree]
    rfl
  rw [undelivered_of_free h hfreeDesk]
  exact hselects.taken.sublist

theorem InLine.claim (h : InLine c s slotId priority claimed) {taken : List String}
    (hfront : taken <+: s.undelivered slotId priority) :
    InLine c s slotId priority (taken.foldl pushNew claimed) := by
  obtain ⟨rest, hrest⟩ := hfront
  have hnodup : (taken ++ rest).Nodup := by
    rw [hrest]
    exact (nodup_delivery h.wellFormed slotId priority).filter _
  obtain ⟨htaken, hrestNodup, hdisjoint⟩ := List.nodup_append.mp hnodup
  rw [foldl_pushNew_eq htaken]
  refine ⟨h.wellFormed, fun id hid ↦ ?_, h.undelivered, ?_⟩
  · obtain hid | hid := List.mem_append.mp hid
    · exact h.stored id hid
    · have hmem : id ∈ s.undelivered slotId priority := by
        rw [← hrest]
        exact List.mem_append_left _ (List.mem_filter.mp hid).1
      exact exists_of_delivery h.wellFormed (List.mem_filter.mp hmem).1
  · have hsame : claimed ++ taken.filter (fun id ↦ decide (id ∉ claimed)) ++
        (s.undelivered slotId priority).filter
          (fun id ↦ decide (id ∉ claimed ++ taken.filter fun id ↦ decide (id ∉ claimed))) =
        claimed ++ (s.undelivered slotId priority).filter fun id ↦ decide (id ∉ claimed) := by
      rw [← hrest, List.filter_append, List.filter_append, List.append_assoc]
      have hgone : taken.filter
          (fun id ↦ decide (id ∉ claimed ++ taken.filter fun id ↦ decide (id ∉ claimed))) = [] := by
        refine List.filter_eq_nil_iff.mpr fun id hid ↦ ?_
        by_cases hold : id ∈ claimed <;> simp [hold, hid]
      have hkeep : rest.filter
          (fun id ↦ decide (id ∉ claimed ++ taken.filter fun id ↦ decide (id ∉ claimed))) =
          rest.filter fun id ↦ decide (id ∉ claimed) := by
        apply List.filter_congr
        intro id hid
        have hout : id ∉ taken := fun hin ↦ hdisjoint id hin id hid rfl
        simp [hout]
      rw [hgone, hkeep, List.nil_append]
    rw [hsame]
    exact h.line

theorem inLine_step (h : InLine c s slotId priority claimed) {op : CoordinatorOp}
    (hop : GenuineBatches c s op) (hkeeps : op.keepsArrival = true) :
    InLine c (c.step s op) slotId priority
      ((c.claimedBy slotId priority s op).foldl pushNew claimed) := by
  have hfront : c.claimedBy slotId priority s op <+: s.undelivered slotId priority := by
    unfold claimedBy
    split
    · next other =>
        split
        · next batch hclaim =>
            split
            · next hlane =>
                obtain ⟨rfl, rfl⟩ := hlane
                exact undelivered_of_claim h.wellFormed hclaim
            · exact List.nil_prefix
        · exact List.nil_prefix
    · exact List.nil_prefix
  exact (h.claim hfront).arrives (kept_step h.wellFormed.keyed op)
    (advances_step h.wellFormed hop).wellFormed (arrives_step h.wellFormed hop hkeeps)

theorem inLine_run {log : ClaimLog} (h : InLine c log.state slotId priority log.claimed)
    {ops : List CoordinatorOp} (hops : Meets c.step
      (fun s op ↦ GenuineBatches c s op ∧ op.keepsArrival = true) log.state ops) :
    InLine c (run c.step log.state ops) slotId priority
      (run (ClaimLog.step c slotId priority) log ops).claimed := by
  induction ops generalizing log with
  | nil => exact h
  | cons op ops ih =>
      have hstep : InLine c (log.step c slotId priority op).state slotId priority
          (log.step c slotId priority op).claimed := inLine_step h hops.1.1 hops.1.2
      exact ih hstep hops.2

theorem InLine.takesOlder (h : InLine c s slotId priority claimed) {batch : WorkBatch}
    (hclaim : (c.next s slotId).result = .claim batch) (hlane : batch.highestPriority = priority)
    {x y : String} {intent : WorkIntent} (hi : s.intents.lookup x = some intent)
    (hslot : intent.slotId = slotId) (hpriority : intent.priority = priority)
    (hmessage : intent.mailboxMessageId.isSome = true) (hlive : intent.state.isTerminal = false)
    (hy : y ∈ batch.intentIds) (hxy : CommittedBefore c x y) : x ∈ batch.intentIds := by
  have hx : x ∈ s.undelivered slotId priority := by
    refine List.mem_filter.mpr ⟨List.mem_append.mpr ?_, ?_⟩
    · obtain hclaimed | ⟨lane, hqueued⟩ :=
        (listed_iff h.wellFormed hi).mpr ⟨hslot, hlive⟩
      · exact Or.inl hclaimed
      · have hsame := (((h.wellFormed.desks slotId).mem_lane hi lane).mp hqueued).2.1
        exact Or.inr (hpriority ▸ hsame ▸ hqueued)
    · simp [CoordinatorState.isMessageOf, hi, hmessage, hpriority]
  obtain ⟨rest, hrest⟩ := undelivered_of_claim h.wellFormed hclaim
  rw [hlane] at hrest
  have hsorted := h.undelivered
  rw [← hrest] at hx hsorted
  obtain hx | hx := List.mem_append.mp hx
  · exact hx
  · obtain ⟨i, j, hij, rfl, rfl⟩ := hxy
    obtain ⟨j', i', hji, hj, hi'⟩ := (List.pairwise_append.mp hsorted).2.2 _ hy _ hx
    have := c.generateId_injective hj
    have := c.generateId_injective hi'
    omega

end Lines

end Zaowutai.Team
