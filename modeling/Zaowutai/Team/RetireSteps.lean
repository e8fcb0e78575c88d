import Zaowutai.Team.ClaimSteps

/-!
# The invariant through retiring

Intents that become terminal leave the lanes and the batch that lists them; in
a cancelled run the other intents of a batch go back to their lane.
-/

namespace Zaowutai.Team

open Zaowutai.Lib SlotWorkCoordinator

variable {c : SlotWorkCoordinator} {s : CoordinatorState} {slotId : String}

theorem advances_retireClaimed (h : WellFormed c s) {owner : WorkBatch} {s' : CoordinatorState}
    (state : WorkIntentState) (hstate : state.isTerminal = true)
    (howner : (s.deskAt slotId).owner = some owner)
    (hintents : s'.intents = (s.setStates owner.intentIds state).intents)
    (hdesks : ∀ other, s'.deskAt other =
      if other = slotId then (s.deskAt slotId).release else s.deskAt other)
    (hgen : s.generated ≤ s'.generated) : Advances c s s' := by
  have hmem := claimedIds_of_owner howner
  have hkeep : ((s.deskAt slotId).remove fun id ↦ decide (id ∈ owner.intentIds)) =
      s.deskAt slotId :=
    (h.desks slotId).remove_claimed fun id hid ↦ hmem ▸ of_decide_eq_true hid
  refine advances_retire h state hstate ?_ hintents hdesks (by rw [hkeep]; rfl)
    (Or.inr ⟨rfl, fun id hid ↦ hmem ▸ hid⟩) hgen
  intro id hid intent hi
  have hc := (h.mem_claimed hi).mp (hmem ▸ hid)
  exact ⟨hc.1, not_terminal_of_claimedIn hc⟩

theorem desk_countFailures (slot : SlotState) (exhausted messageIds : List String) :
    (messageIds.foldl SlotState.countFailure (slot, exhausted)).1.desk = slot.desk := by
  induction messageIds generalizing slot exhausted with
  | nil => rfl
  | cons messageId messageIds ih => exact ih _ _

theorem desk_releaseSlot (slot : SlotState) (batch : WorkBatch) (delivery : DeliveryOutcome) :
    (releaseSlot slot batch delivery).1.desk = slot.desk.release := by
  cases delivery with
  | notFailed => rfl
  | failed => exact desk_countFailures { slot with active := none } [] batch.mailboxMessageIds

theorem advances_terminalizeBatch (h : WellFormed c s) {batch : WorkBatch}
    (hgenuine : Genuine c s batch) {terminal : WorkIntentState}
    (hterminal : terminal.isTerminal = true) (delivery : DeliveryOutcome) :
    Advances c s (c.terminalizeBatch s batch terminal delivery).state := by
  unfold terminalizeBatch
  split
  · exact advances_refl h
  · next slot hslot =>
      split
      · exact advances_refl h
      · next hcurrent =>
          obtain ⟨_, owner, _, howner, _, _, hids, _⟩ :=
            current_owner hgenuine (by simpa using hcurrent)
          refine advances_retireClaimed h terminal hterminal howner (by rw [hids]; rfl) (fun other ↦ ?_)
            le_rfl
          rw [deskAt_of_lookup hslot, ← desk_releaseSlot slot batch delivery]
          exact deskAt_insert rfl

theorem advances_interruptBatch (h : WellFormed c s) {batch : WorkBatch}
    (hgenuine : Genuine c s batch) (reason : Option String) (messageId : String) :
    Advances c s (c.interruptBatch s batch reason messageId).state := by
  unfold interruptBatch
  split
  · next hcurrent =>
      obtain ⟨slot, owner, hslot, howner, _, _, hids, _⟩ := current_owner hgenuine hcurrent
      refine advances_retireClaimed h (.cancelled "lead_interrupted") rfl howner
        (by rw [hids]; rfl) (fun other ↦ ?_) le_rfl
      rw [deskAt_of_lookup hslot]
      exact deskAt_modify_of_lookup (f := fun slot ↦ slot.interrupt batch.mailboxMessageIds) rfl
        hslot
  · exact advances_refl h

theorem mem_completedIntents {batch : WorkBatch} {intent : WorkIntent} :
    intent ∈ completedIntents s batch slotId ↔
      (∃ id, s.intents.lookup id = some intent) ∧
        (intent.intentId ∈ batch.intentIds ∨ observedIntent batch slotId intent = true) := by
  simp [completedIntents, Table.mem_values_iff]

theorem desk_finish (slot : SlotState) (ids messageIds : List String) :
    (slot.finish ids messageIds).desk =
      (slot.desk.remove fun id ↦ decide (id ∈ ids)).release := by
  rw [← desk_removeAllQueued]
  rfl

theorem advances_completeBatchWithAck (h : WellFormed c s) (batch : WorkBatch) :
    Advances c s (c.completeBatchWithAck s batch).state := by
  unfold completeBatchWithAck
  split
  · exact advances_refl h
  · next active hactive =>
      split
      · exact advances_refl h
      · obtain ⟨slot, hslot, _⟩ := slot_of_activeBatch hactive
        have hclaimed := claimedIds_of_activeBatch hactive
        refine advances_retire h .completed rfl ?_ rfl (fun _ ↦
          deskAt_modify_of_lookup (f := fun slot ↦ slot.finish _ _) rfl hslot) ?_ ?_ le_rfl
        · intro id hid intent hi
          rcases List.mem_append.mp hid with hid | hid
          · have hc := (h.mem_claimed hi).mp (hclaimed ▸ hid)
            exact ⟨hc.1, not_terminal_of_claimedIn hc⟩
          · obtain ⟨other, hother, rfl⟩ := List.mem_map.mp hid
            obtain ⟨⟨id, hlookup⟩, hcompleted⟩ := mem_completedIntents.mp hother
            obtain rfl := h.keys id other hlookup
            obtain rfl : other = intent := Option.some.inj (hlookup.symm.trans hi)
            rcases hcompleted with hid | hobserved
            · have hc := (h.mem_claimed hi).mp (hclaimed ▸ hid)
              exact ⟨hc.1, not_terminal_of_claimedIn hc⟩
            · simp [observedIntent] at hobserved
              exact ⟨hobserved.1.1, hobserved.2⟩
        · rw [desk_finish, deskAt_of_lookup hslot]
          rfl
        · rw [desk_finish]
          exact Or.inr ⟨rfl, fun id hid ↦ List.mem_append_left _ (hclaimed ▸ hid)⟩

theorem deskAt_removeAll {s' : CoordinatorState} {ids : List String}
    (h : s'.slots = s.slots.modify slotId fun slot ↦ slot.removeAllQueued ids) (other : String) :
    s'.deskAt other = if other = slotId then
      (s.deskAt slotId).remove fun id ↦ decide (id ∈ ids) else s.deskAt other := by
  rw [deskAt_modify (g := fun desk ↦ desk.remove fun id ↦ decide (id ∈ ids)) h
    (fun slot ↦ desk_removeAllQueued ids) rfl]
  split
  · next heq => rw [heq]
  · rfl

theorem advances_discardQueuedExcept (h : WellFormed c s) (slotId messageId : String) :
    Advances c s (discardQueuedExcept s slotId messageId).state := by
  unfold discardQueuedExcept
  refine advances_retireQueued h slotId (.cancelled "lead_interrupt_discarded") rfl ?_ rfl
    (deskAt_removeAll rfl) le_rfl
  exact fun id hid ↦ mem_lane_of_queuedIds (List.mem_filter.mp hid).1

theorem advances_completeSignals (h : WellFormed c s) (slotId : String) (intentIds : List String) :
    Advances c s (completeSignals s slotId intentIds).state := by
  unfold completeSignals
  split
  · next hsignals =>
      refine advances_retireQueued h slotId .completed rfl (fun id hid ↦ ?_) rfl
        (deskAt_removeAll rfl) le_rfl
      have hsignal := List.all_eq_true.mp hsignals id hid
      obtain ⟨intent, hi, hsig⟩ := (Option.any_eq_true _ _).mp hsignal
      simp only [decide_eq_true_eq] at hsig
      exact ⟨intent.priority, ((h.desks slotId).mem_lane hi _).mpr ⟨hsig.1, rfl, hsig.2.2⟩⟩
  · exact advances_refl h

theorem listed_iff (h : WellFormed c s) {id : String} {intent : WorkIntent}
    (hi : s.intents.lookup id = some intent) :
    (id ∈ (s.deskAt slotId).claimedIds ∨ ∃ p, id ∈ (s.deskAt slotId).lane p) ↔
      intent.slotId = slotId ∧ intent.state.isTerminal = false := by
  rw [h.mem_claimed hi]
  constructor
  · rintro (hc | ⟨p, hp⟩)
    · exact ⟨hc.1, not_terminal_of_claimedIn hc⟩
    · have hq := ((h.desks slotId).mem_lane hi p).mp hp
      exact ⟨hq.1, by rw [hq.2.2]; rfl⟩
  · rintro ⟨hs, ht⟩
    cases hclaim : intent.state.claim with
    | some claim => exact Or.inl ⟨hs, by rw [hclaim]; rfl⟩
    | none =>
        rcases (WorkIntentState.claim_eq_none_iff _).mp hclaim with hq | hterm
        · exact Or.inr ⟨_, ((h.desks slotId).mem_lane hi _).mpr ⟨hs, rfl, hq⟩⟩
        · simp [ht] at hterm

theorem mem_ordered {id : String} :
    id ∈ ((s.slots.lookup slotId).elim [] fun slot ↦ slot.activeIntentIds ++ slot.queuedIds) ↔
      id ∈ (s.deskAt slotId).claimedIds ∨ ∃ p, id ∈ (s.deskAt slotId).lane p := by
  unfold CoordinatorState.deskAt
  cases s.slots.lookup slotId with
  | none => simp [Desk.empty, Desk.claimedIds]
  | some slot =>
      have hactive : slot.desk.claimedIds = slot.activeIntentIds := by
        unfold SlotState.desk Desk.claimedIds SlotState.activeIntentIds
        cases slot.active <;> rfl
      simp only [Option.elim_some, List.mem_append, hactive, SlotState.mem_queuedIds]
      rfl

theorem mem_removedIntentIds (h : WellFormed c s) {id : String} {intent : WorkIntent}
    (hi : s.intents.lookup id = some intent) :
    id ∈ removedIntentIds s slotId ↔ intent.slotId = slotId ∧ intent.state.isTerminal = false := by
  simp only [removedIntentIds, List.mem_append, mem_ordered, listed_iff h hi, List.mem_map,
    List.mem_insertionSort, List.mem_filter, Table.mem_values_iff, decide_eq_true_eq]
  constructor
  · rintro (hlisted | ⟨other, ⟨⟨id', hother⟩, hs, ht, _⟩, rfl⟩)
    · exact hlisted
    · obtain rfl := h.keys id' other hother
      obtain rfl : other = intent := Option.some.inj (hother.symm.trans hi)
      exact ⟨hs, ht⟩
  · exact Or.inl

theorem desk_remove_slot (slot : SlotState) : slot.remove.desk = .empty := by
  unfold SlotState.desk SlotState.remove
  simp only [Desk.empty, Desk.mk.injEq]
  exact ⟨funext fun p ↦ by cases p <;> rfl, rfl⟩

theorem desk_stop (slot : SlotState) : slot.stop.desk = .empty := desk_remove_slot slot

theorem lane_remove_all {gone : String → Bool}
    (hgone : ∀ id p, id ∈ (s.deskAt slotId).lane p → gone id = true) :
    Desk.empty.lane = ((s.deskAt slotId).remove gone).lane := by
  funext p
  refine (List.filter_eq_nil_iff.mpr fun id hid ↦ ?_).symm
  simp [hgone id p hid]

theorem advances_removeSlot (h : WellFormed c s) (slotId : String) :
    Advances c s (removeSlot s slotId).state := by
  have hlisted : ∀ id, (id ∈ (s.deskAt slotId).claimedIds ∨
      ∃ p, id ∈ (s.deskAt slotId).lane p) → id ∈ removedIntentIds s slotId := fun id hid ↦
    List.mem_append_left _ (mem_ordered.mpr hid)
  have hintents : (removeSlot s slotId).state.intents =
      (s.setStates (removedIntentIds s slotId) (.cancelled "slot_removed")).intents := rfl
  have hdesks : ∀ other, (removeSlot s slotId).state.deskAt other =
      if other = slotId then .empty else s.deskAt other := fun _ ↦
    deskAt_modify (g := fun _ ↦ .empty) (f := SlotState.remove) rfl desk_remove_slot rfl
  refine advances_retire h _ rfl ?_ hintents hdesks ?_ (Or.inr ⟨rfl, ?_⟩) le_rfl
  · exact fun id hid intent hi ↦ (mem_removedIntentIds h hi).mp hid
  · exact lane_remove_all fun id p hid ↦ decide_eq_true (hlisted id (Or.inr ⟨p, hid⟩))
  · exact fun id hid ↦ hlisted id (Or.inl hid)

theorem advances_stop (h : WellFormed c s) : Advances c s (stop s).state := by
  refine advances_restate (f := fun _ intent ↦
    if intent.state.isTerminal then intent.state else .cancelled "session_stopped") h rfl
    (fun id intent _ ht ↦ if_pos ht) (fun slotId ↦ ?_) le_rfl
  have hdesk : (stop s).state.deskAt slotId = .empty := by
    have hslots : (stop s).state.slots = s.slots.mapValues fun _ ↦ SlotState.stop := rfl
    unfold CoordinatorState.deskAt
    rw [hslots, Table.lookup_mapValues]
    cases s.slots.lookup slotId with
    | none => rfl
    | some slot => exact desk_stop slot
  rw [hdesk]
  refine (h.desks slotId).retire (fun _ ↦ true) ?_ ?_
    (lane_remove_all fun _ _ _ ↦ rfl) (Or.inr ⟨rfl, fun _ _ ↦ rfl⟩)
  · intro id intent _ _ _
    by_cases ht : intent.state.isTerminal = true
    · rw [if_pos ht]
      exact ht
    · rw [if_neg ht]
      rfl
  · intro id intent _ _ hfalse
    simp at hfalse

section CancelRun

variable {teamRunId : String}

theorem requeueFront_eq {slot : SlotState} {id : String} {intent : WorkIntent}
    (hi : s.intents.lookup id = some intent) :
    requeueFront s slot id = slot.pushFront intent.priority id := by
  simp [requeueFront, priorityOf, hi]

theorem desk_requeueFrontAll {p : WorkPriority} {ids : List String} (slot : SlotState)
    (hids : ∀ id ∈ ids, ∃ intent, s.intents.lookup id = some intent ∧ intent.priority = p) :
    (ids.reverse.foldl (requeueFront s) slot).desk = slot.desk.prepend p ids := by
  rw [← desk_pushFrontAll]
  congr 1
  refine List.foldl_ext _ _ _ fun slot id hid ↦ ?_
  obtain ⟨intent, hi, rfl⟩ := hids id (List.mem_reverse.mp hid)
  exact requeueFront_eq hi

/-- The states that `cancelActive` gives to the intents. -/
def cancelState (s : CoordinatorState) (teamRunId : String) (ids : List String) (id : String)
    (intent : WorkIntent) : WorkIntentState :=
  if id ∈ ids then
    if s.teamRunOf id = some teamRunId then .cancelled "run_cancelled" else .queued
  else intent.state

theorem intents_cancelActive (active : ActiveBatch) :
    (cancelActive teamRunId s (slotId, active)).intents =
      restated s.intents (cancelState s teamRunId active.batch.intentIds) := by
  simp only [cancelActive, CoordinatorState.modifySlot, CoordinatorState.setStates,
    CoordinatorState.restate, restated, Table.mapValues_mapValues]
  congr 1
  funext id intent
  by_cases hid : id ∈ active.batch.intentIds <;>
    by_cases hrun : s.teamRunOf id = some teamRunId <;>
    simp [cancelState, hid, hrun]

theorem deskAt_cancelActive (teamRunId : String) (h : WellFormed c s) {active : ActiveBatch}
    (hactive : s.activeBatch slotId = some active) (other : String) :
    (cancelActive teamRunId s (slotId, active)).deskAt other =
      if other = slotId then
        (s.deskAt slotId).release.prepend active.batch.highestPriority
          (active.batch.intentIds.filter fun id ↦ decide (s.teamRunOf id ≠ some teamRunId))
      else s.deskAt other := by
  obtain ⟨slot, hslot, _⟩ := slot_of_activeBatch hactive
  have howner : (s.deskAt slotId).owner = some active.batch.core := by
    rw [owner_deskAt, hactive]
    rfl
  refine (deskAt_modify_of_lookup (f := fun slot ↦ List.foldl (requeueFront _)
    { slot with active := none } _) rfl hslot).trans ?_
  rw [desk_requeueFrontAll, deskAt_of_lookup hslot]
  · rfl
  · intro id hid
    have hclaimed : id ∈ (s.deskAt slotId).claimedIds := by
      rw [claimedIds_of_activeBatch hactive]
      exact (List.mem_filter.mp hid).1
    obtain ⟨intent, hi, hc⟩ := ((h.desks slotId).claimed.mem_iff id).mp hclaimed
    have hp := ((h.desks slotId).owns _ howner id intent hi hc).priority
    have hlookup : (cancelActive teamRunId s (slotId, active)).intents.lookup id =
        some { intent with state := cancelState s teamRunId active.batch.intentIds id intent } := by
      rw [intents_cancelActive, Table.lookup_mapValues, hi]
      rfl
    exact ⟨_, hlookup, hp⟩

theorem advances_cancelActive (teamRunId : String) (h : WellFormed c s) {active : ActiveBatch}
    (hactive : s.activeBatch slotId = some active) :
    Advances c s (cancelActive teamRunId s (slotId, active)) := by
  have howner : (s.deskAt slotId).owner = some active.batch.core := by
    rw [owner_deskAt, hactive]
    rfl
  have hclaimed : ∀ id intent, s.intents.lookup id = some intent →
      (id ∈ active.batch.intentIds ↔ ClaimedIn slotId intent) := by
    intro id intent hi
    rw [← claimedIds_of_activeBatch hactive]
    exact h.mem_claimed hi
  refine advances_restate_slot h (intents_cancelActive active)
    (deskAt_cancelActive teamRunId h hactive) ?_ ?_ ?_ le_rfl
  · intro id intent hi ht
    refine if_neg fun hid ↦ ?_
    simp [not_terminal_of_claimedIn ((hclaimed id intent hi).mp hid)] at ht
  · intro id intent hi hne
    exact if_neg fun hid ↦ hne ((hclaimed id intent hi).mp hid).1
  · refine (h.desks slotId).giveBack howner ?_ ?_
    · intro id intent hi hc
      rw [cancelState, if_pos ((hclaimed id intent hi).mpr hc)]
      by_cases hrun : s.teamRunOf id = some teamRunId <;> simp [hrun, WorkIntentState.isTerminal]
    · intro id intent hi _ hc
      exact if_neg fun hid ↦ hc ((hclaimed id intent hi).mp hid)

theorem activeBatch_cancelActive {active : ActiveBatch} {other : String} (hne : other ≠ slotId) :
    (cancelActive teamRunId s (slotId, active)).activeBatch other = s.activeBatch other := by
  simp [cancelActive, CoordinatorState.activeBatch, CoordinatorState.modifySlot,
    CoordinatorState.setStates, CoordinatorState.restate, hne]

theorem advances_cancelActives (h : WellFormed c s) (teamRunId : String)
    {entries : List (String × ActiveBatch)}
    (hactive : ∀ e ∈ entries, s.activeBatch e.1 = some e.2)
    (hnodup : (entries.map Prod.fst).Nodup) :
    Advances c s (entries.foldl (cancelActive teamRunId) s) := by
  induction entries generalizing s with
  | nil => exact advances_refl h
  | cons e entries ih =>
      rw [List.map_cons, List.nodup_cons] at hnodup
      have hstep := advances_cancelActive teamRunId h (hactive e List.mem_cons_self)
      refine hstep.trans (ih hstep.wellFormed (fun e' he' ↦ ?_) hnodup.2)
      rw [activeBatch_cancelActive fun heq ↦ hnodup.1 (List.mem_map.mpr ⟨e', he', heq⟩)]
      exact hactive e' (List.mem_cons_of_mem _ he')

theorem mem_batchesOfRun {e : String × ActiveBatch} (he : e ∈ batchesOfRun s teamRunId) :
    s.activeBatch e.1 = some e.2 := by
  obtain ⟨slotId, _, he⟩ := List.mem_filterMap.mp he
  obtain ⟨active, hactive, hif⟩ := Option.bind_eq_some_iff.mp he
  split at hif
  · cases hif
    exact hactive
  · cases hif

theorem nodup_slotIds : s.slotIds.Nodup :=
  (List.perm_insertionSort _ _).nodup_iff.mpr s.slots.keys_nodup

theorem sublist_batchesOfRun : ((batchesOfRun s teamRunId).map Prod.fst).Sublist s.slotIds := by
  unfold batchesOfRun
  induction s.slotIds with
  | nil => exact List.Sublist.refl _
  | cons slotId slotIds ih =>
      rw [List.filterMap_cons]
      split
      · exact ih.cons _
      · next e he =>
          obtain ⟨active, _, hif⟩ := Option.bind_eq_some_iff.mp he
          have hfst : e.1 = slotId := by
            split at hif
            · cases hif
              rfl
            · cases hif
          rw [List.map_cons, hfst]
          exact ih.cons_cons _

theorem advances_cancelQueued (h : WellFormed c s) {intent : WorkIntent}
    (hi : s.intents.lookup intent.intentId = some intent) (hq : intent.state = .queued) :
    Advances c s (cancelQueued s intent) := by
  have hintents : (cancelQueued s intent).intents =
      (s.setStates [intent.intentId] (.cancelled "run_cancelled")).intents := rfl
  refine advances_retireQueued h intent.slotId _ rfl (fun id hid ↦ ?_) hintents
    (deskAt_removeAll rfl) le_rfl
  obtain rfl := List.mem_singleton.mp hid
  exact ⟨intent.priority, ((h.desks intent.slotId).mem_lane hi _).mpr ⟨rfl, rfl, hq⟩⟩

theorem advances_cancelAllQueued (h : WellFormed c s) {queued : List WorkIntent}
    (hqueued : ∀ intent ∈ queued,
      s.intents.lookup intent.intentId = some intent ∧ intent.state = .queued)
    (hnodup : (queued.map WorkIntent.intentId).Nodup) :
    Advances c s (queued.foldl cancelQueued s) := by
  induction queued generalizing s with
  | nil => exact advances_refl h
  | cons intent queued ih =>
      rw [List.map_cons, List.nodup_cons] at hnodup
      obtain ⟨hi, hq⟩ := hqueued intent List.mem_cons_self
      have hstep := advances_cancelQueued h hi hq
      refine hstep.trans (ih hstep.wellFormed (fun other hother ↦ ?_) hnodup.2)
      obtain ⟨hi', hq'⟩ := hqueued other (List.mem_cons_of_mem _ hother)
      have hne : other.intentId ≠ intent.intentId := fun heq ↦
        hnodup.1 (List.mem_map.mpr ⟨other, hother, heq⟩)
      refine ⟨?_, hq'⟩
      simp [cancelQueued, CoordinatorState.modifySlot, CoordinatorState.setStates,
        CoordinatorState.restate, hi', hne]

theorem nodup_queuedOfRun (teamRunId : String) (h : WellFormed c s) :
    (((s.runIntents teamRunId).filter fun intent ↦ intent.state = .queued).map
      WorkIntent.intentId).Nodup := by
  have hsub : (((s.runIntents teamRunId).filter fun intent ↦ intent.state = .queued).map
      WorkIntent.intentId).Sublist ((s.intents.values.filter fun _ ↦ true).map
        WorkIntent.intentId) := by
    refine List.Sublist.map _ ?_
    rw [List.filter_eq_self.mpr fun _ _ ↦ rfl]
    exact List.filter_sublist.trans List.filter_sublist
  have hindex := Indexes.values_map (P := fun _ ↦ True) h.keys
  exact (by simpa using hindex.nodup : List.Nodup _).sublist hsub

theorem advances_enqueueLeases (h : WellFormed c s) (leases : Table String EnqueueLeaseRecord) :
    Advances c s { s with enqueueLeases := leases } :=
  advances_idle h (fun _ ↦ rfl) (fun _ ↦ rfl) le_rfl

theorem advances_cancelRun (h : WellFormed c s) (teamRunId : String) :
    Advances c s (cancelRun s teamRunId).state := by
  have hbatches : Advances c s ((batchesOfRun s teamRunId).foldl (cancelActive teamRunId) s) :=
    advances_cancelActives h teamRunId (fun _ ↦ mem_batchesOfRun)
      (nodup_slotIds.sublist sublist_batchesOfRun)
  have hmem : ∀ intent ∈
      (((batchesOfRun s teamRunId).foldl (cancelActive teamRunId) s).runIntents teamRunId).filter
        (fun intent ↦ intent.state = .queued),
      ((batchesOfRun s teamRunId).foldl (cancelActive teamRunId) s).intents.lookup
        intent.intentId = some intent ∧ intent.state = .queued := by
    intro intent hi
    obtain ⟨hrun, hstate⟩ := List.mem_filter.mp hi
    obtain ⟨id, hlookup⟩ := Table.mem_values_iff.mp (List.mem_filter.mp hrun).1
    rw [hbatches.wellFormed.keys id intent hlookup]
    exact ⟨hlookup, of_decide_eq_true hstate⟩
  have hqueued := advances_cancelAllQueued hbatches.wellFormed hmem
    (nodup_queuedOfRun teamRunId hbatches.wellFormed)
  exact hbatches.trans (hqueued.trans (advances_enqueueLeases hqueued.wellFormed _))

end CancelRun

end Zaowutai.Team
