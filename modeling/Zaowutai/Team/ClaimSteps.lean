import Zaowutai.Team.EnqueueSteps

/-!
# The invariant through claiming

`next` moves intents of one lane to the owner of the desk; a genuine batch
argument then names exactly the claimed intents, whether they are started or
given back.
-/

namespace Zaowutai.Team

open Zaowutai.Lib SlotWorkCoordinator

variable {c : SlotWorkCoordinator} {s : CoordinatorState} {slotId : String}

theorem sublist_selectMessageIntents (ids : List String) :
    (s.selectMessageIntents ids).Sublist ids := by
  cases ids with
  | nil => exact List.Sublist.refl _
  | cons head rest =>
      rw [CoordinatorState.selectMessageIntents]
      split
      · exact (List.nil_sublist rest).cons_cons head
      · exact (List.takeWhile_sublist _).cons_cons head

theorem owns_claimBatch {priority : WorkPriority} {ids : List String} {id : String}
    {intent : WorkIntent} (hi : s.intents.lookup id = some intent) (hid : id ∈ ids)
    (hp : intent.priority = priority) :
    Owns (c.claimBatch s slotId priority ids)
      { intent with state := .starting (c.generateId s.generated) s.nextOperation } where
  claim := rfl
  priority := hp
  run teamRunId hr := by
    refine mem_foldl_pushNew.mpr (Or.inr (List.mem_filterMap.mpr ⟨id, hid, ?_⟩))
    rw [CoordinatorState.teamRunOf, hi]
    exact hr
  message messageId hm := by
    refine List.mem_filterMap.mpr ⟨id, hid, ?_⟩
    rw [CoordinatorState.messageOf, hi]
    exact hm

theorem deskAt_claimed {slot : SlotState} (hslot : s.slots.lookup slotId = some slot)
    {batch : WorkBatch} (hbatch : batch.core = batch) (other : String) :
    (claimed s slotId slot batch).deskAt other =
      if other = slotId then
        ((s.deskAt slotId).remove fun id ↦ decide (id ∈ batch.intentIds)).assign batch
      else s.deskAt other := by
  have hslots : (claimed s slotId slot batch).slots =
      s.slots.insert slotId { slot.removeAllQueued batch.intentIds with
        active := some ⟨batch, none, none⟩ } := rfl
  rw [deskAt_insert hslots, deskAt_of_lookup hslot, ← desk_removeAllQueued]
  simp only [SlotState.desk, Desk.assign, Option.map_some, hbatch]
  rfl

theorem advances_claimed (h : WellFormed c s) {slot : SlotState} {priority : WorkPriority}
    {ids : List String} (hslot : s.slots.lookup slotId = some slot) (hfree : slot.active = none)
    (hsub : ids.Sublist (slot.queue priority)) :
    Advances c s (claimed s slotId slot (c.claimBatch s slotId priority ids)) := by
  have hdesk : s.deskAt slotId = slot.desk := deskAt_of_lookup hslot
  have hqueued : ∀ id intent, s.intents.lookup id = some intent → id ∈ ids →
      QueuedIn slotId priority intent := by
    intro id intent hi hid
    refine ((h.desks slotId).mem_lane hi priority).mp ?_
    rw [hdesk]
    exact hsub.subset hid
  refine advances_restate_slot (f := fun id intent ↦
    if id ∈ ids then .starting (c.generateId s.generated) s.nextOperation else intent.state)
    h rfl (deskAt_claimed hslot rfl) ?_ ?_ ?_ (Nat.le_succ _)
  · intro id intent hi ht
    refine if_neg fun hid ↦ ?_
    simp [(hqueued id intent hi hid).2.2] at ht
  · intro id intent hi hne
    exact if_neg fun hid ↦ hne (hqueued id intent hi hid).1
  · have hfree' : (s.deskAt slotId).owner = none := by
      rw [hdesk]
      simp [SlotState.desk, hfree]
    have hlane : (slot.queue priority).Nodup := by
      have hnodup := ((h.desks slotId).lanes priority).nodup
      rwa [hdesk] at hnodup
    refine (h.desks slotId).claimFrom (c.claimBatch s slotId priority ids) hfree'
      (hlane.sublist hsub) ?_ ?_ ?_
    · intro id hid
      rw [hdesk]
      exact hsub.subset hid
    · intro id intent hi hid
      have hq := hqueued id intent hi hid
      rw [if_pos (show id ∈ ids from hid)]
      exact owns_claimBatch hi hid hq.2.1
    · intro id intent _ _ hid
      exact if_neg hid

/-- A claim draws a batch for a free slot, or `next` changes nothing. -/
theorem next_cases (slotId : String) :
    ((c.next s slotId).state = s ∧ ∀ batch, (c.next s slotId).result ≠ .claim batch) ∨
      ∃ slot priority ids, s.slots.lookup slotId = some slot ∧ slot.active = none ∧
        slot.runtimeConstraint = .ready ∧ ids.Sublist (slot.queue priority) ∧
          (c.next s slotId).result = .claim (c.claimBatch s slotId priority ids) ∧
            (c.next s slotId).state =
              claimed s slotId slot (c.claimBatch s slotId priority ids) := by
  have hstay : ∀ decision : ReconcileDecision, (∀ batch, decision ≠ .claim batch) →
      s = s ∧ ∀ batch, decision ≠ .claim batch := fun _ h ↦ ⟨rfl, h⟩
  unfold next
  split
  · exact Or.inl (hstay .quiescent (by simp))
  · next slot hslot =>
      split
      · exact Or.inl (hstay .waitingForCompletion (by simp))
      · next hfree =>
          split
          · exact Or.inl (hstay (.blocked _) (by simp))
          · next hready =>
              split
              · exact Or.inl (hstay .quiescent (by simp))
              · split
                · exact Or.inl (hstay .quiescent (by simp))
                · next priority _ =>
                    simp only
                    split
                    · exact Or.inl (hstay (.settleSignals _) (by simp))
                    · refine Or.inr ⟨slot, priority, _, hslot, by simpa using hfree,
                        by simpa using hready, ?_, rfl, rfl⟩
                      exact (sublist_selectMessageIntents _).trans List.filter_sublist

theorem advances_next (h : WellFormed c s) (slotId : String) :
    Advances c s (c.next s slotId).state := by
  rcases next_cases (c := c) (s := s) slotId with
    ⟨hsame, _⟩ | ⟨slot, priority, ids, hslot, hfree, _, hsub, _, hstate⟩
  · rw [hsame]
    exact advances_refl h
  · rw [hstate]
    exact advances_claimed h hslot hfree hsub

theorem isCurrentBatch_iff {batch : WorkBatch} :
    c.isCurrentBatch s batch = true ↔ batch.sessionGeneration = c.sessionGeneration ∧
      ∃ active, s.activeBatch batch.slotId = some active ∧
        active.batch.batchId = batch.batchId ∧ active.batch.operationId = batch.operationId ∧
          active.batch.sessionGeneration = batch.sessionGeneration := by
  simp [isCurrentBatch, Option.any_eq_true, and_assoc]

theorem slot_of_activeBatch {active : ActiveBatch} (h : s.activeBatch slotId = some active) :
    ∃ slot, s.slots.lookup slotId = some slot ∧ slot.active = some active :=
  Option.bind_eq_some_iff.mp h

theorem claimedIds_of_activeBatch {active : ActiveBatch} (h : s.activeBatch slotId = some active) :
    (s.deskAt slotId).claimedIds = active.batch.intentIds := by
  simp [Desk.claimedIds, owner_deskAt, h, WorkBatch.core]

theorem desk_observe (slot : SlotState) (messageIds : List String) :
    (slot.observe messageIds).desk = slot.desk := by
  unfold SlotState.desk SlotState.observe
  rw [Option.map_map]
  rfl

theorem desk_start (slot : SlotState) (turnId : String) (now : ℤ) :
    (slot.start turnId now).desk = slot.desk := by
  unfold SlotState.desk SlotState.start
  rw [Option.map_map]
  rfl

theorem advances_observeMessages (h : WellFormed c s) (slotId expectedBatchId : String)
    (messageIds : List String) :
    Advances c s (observeMessages s slotId expectedBatchId messageIds).state := by
  unfold observeMessages
  split
  · exact advances_refl h
  · next active hactive =>
      split
      · exact advances_refl h
      · obtain ⟨slot, hslot, hslotActive⟩ := slot_of_activeBatch hactive
        refine advances_idle h (fun _ ↦ rfl) (fun other ↦ ?_) le_rfl
        refine (deskAt_modify_of_lookup (f := fun slot ↦ slot.observe messageIds) rfl
          hslot).trans ?_
        split
        · next heq => rw [heq, deskAt_of_lookup hslot, desk_observe]
        · rfl

theorem current_owner {batch : WorkBatch} (hgenuine : Genuine c s batch)
    (hcurrent : c.isCurrentBatch s batch = true) :
    ∃ slot owner, s.slots.lookup batch.slotId = some slot ∧
      (s.deskAt batch.slotId).owner = some owner ∧ owner.batchId = batch.batchId ∧
        owner.operationId = batch.operationId ∧ owner.intentIds = batch.intentIds ∧
          owner.highestPriority = batch.highestPriority := by
  obtain ⟨_, active, hactive, hid, hop, _⟩ := isCurrentBatch_iff.mp hcurrent
  obtain ⟨slot, hslot, _⟩ := slot_of_activeBatch hactive
  obtain ⟨hids, hprio⟩ := hgenuine hcurrent active hactive
  refine ⟨slot, active.batch.core, hslot, ?_, hid, hop, hids.symm, hprio.symm⟩
  rw [owner_deskAt, hactive]
  rfl

theorem not_terminal_of_claimedIn {intent : WorkIntent} (h : ClaimedIn slotId intent) :
    intent.state.isTerminal = false := by
  obtain ⟨claim, hclaim⟩ := Option.isSome_iff_exists.mp h.2
  exact WorkIntentState.not_terminal_of_claim hclaim

theorem advances_setClaimed (h : WellFormed c s) {owner : WorkBatch} {s' : CoordinatorState}
    {state : WorkIntentState} {desk : Desk} (howner : (s.deskAt slotId).owner = some owner)
    (hintents : s'.intents = (s.setStates owner.intentIds state).intents)
    (hdesks : ∀ other, s'.deskAt other = if other = slotId then desk else s.deskAt other)
    (hdesk : DeskAgrees (restated s.intents fun id intent ↦
      if id ∈ owner.intentIds then state else intent.state) slotId desk)
    (hgen : s.generated ≤ s'.generated) : Advances c s s' := by
  have hmem : ∀ id intent, s.intents.lookup id = some intent → id ∈ owner.intentIds →
      ClaimedIn slotId intent := by
    intro id intent hi hid
    rw [← claimedIds_of_owner howner] at hid
    exact (h.mem_claimed hi).mp hid
  refine advances_restate_slot
    (f := fun id intent ↦ if id ∈ owner.intentIds then state else intent.state)
    h hintents hdesks ?_ ?_ hdesk hgen
  · intro id intent hi ht
    refine if_neg fun hid ↦ ?_
    simp [not_terminal_of_claimedIn (hmem id intent hi hid)] at ht
  · intro id intent hi hne
    exact if_neg fun hid ↦ hne (hmem id intent hi hid).1

theorem advances_markStarted (h : WellFormed c s) {batch : WorkBatch}
    (hgenuine : Genuine c s batch) (turnId : String) (now : ℤ) :
    Advances c s (c.markStarted s batch turnId now).state := by
  unfold markStarted
  split
  · next hcurrent =>
      obtain ⟨slot, owner, hslot, howner, hid, hop, hids, _⟩ := current_owner hgenuine hcurrent
      have hmem := claimedIds_of_owner howner
      refine advances_setClaimed h howner (by rw [hids]; rfl) (fun _ ↦
        deskAt_modify_of_lookup (f := fun slot ↦ slot.start turnId now) rfl hslot) ?_ le_rfl
      rw [desk_start, ← deskAt_of_lookup hslot]
      refine (h.desks batch.slotId).proceed ?_ ?_
      · intro id intent hi hc
        have howns := (h.desks batch.slotId).owns owner howner id intent hi hc
        rw [if_pos (hmem ▸ (h.mem_claimed hi).mpr hc), howns.claim, hid, hop]
        rfl
      · intro id intent hi _ hc
        exact if_neg fun hid ↦ hc ((h.mem_claimed hi).mp (hmem ▸ hid))
  · split
    · exact advances_refl h
    · exact advances_refl h

theorem desk_pushFrontAll (slot : SlotState) (p : WorkPriority) (ids : List String) :
    (ids.reverse.foldl (fun slot id ↦ slot.pushFront p id) slot).desk =
      slot.desk.prepend p ids := by
  induction ids with
  | nil => simp [Desk.prepend]
  | cons id ids ih =>
      rw [List.reverse_cons, List.foldl_append, List.foldl_cons, List.foldl_nil, desk_pushFront, ih]
      simp only [Desk.prepend, Desk.mk.injEq, and_true]
      funext q
      split <;> simp

theorem deskAt_retryStart {batch : WorkBatch} (hgenuine : Genuine c s batch)
    (hcurrent : c.isCurrentBatch s batch = true) :
    ∃ owner, (s.deskAt batch.slotId).owner = some owner ∧ owner.intentIds = batch.intentIds ∧
      ∀ other, (c.retryStart s batch).state.deskAt other =
        if other = batch.slotId then
          (s.deskAt batch.slotId).release.prepend owner.highestPriority
            (owner.intentIds.filter fun _ ↦ true)
        else s.deskAt other := by
  obtain ⟨slot, owner, hslot, howner, _, _, hids, hprio⟩ := current_owner hgenuine hcurrent
  refine ⟨owner, howner, hids, fun other ↦ ?_⟩
  rw [retryStart, if_pos hcurrent]
  refine (deskAt_modify_of_lookup (f := fun slot ↦ slot.giveBack batch) rfl hslot).trans ?_
  have hdesk : (slot.giveBack batch).desk = (s.deskAt batch.slotId).release.prepend
      owner.highestPriority (owner.intentIds.filter fun _ ↦ true) := by
    rw [List.filter_eq_self.mpr fun _ _ ↦ rfl, hprio, hids, deskAt_of_lookup hslot]
    exact desk_pushFrontAll _ _ _
  rw [hdesk]

theorem advances_retryStart (h : WellFormed c s) {batch : WorkBatch}
    (hgenuine : Genuine c s batch) : Advances c s (c.retryStart s batch).state := by
  by_cases hcurrent : c.isCurrentBatch s batch = true
  · obtain ⟨owner, howner, hids, hdesks⟩ := deskAt_retryStart hgenuine hcurrent
    have hmem := claimedIds_of_owner howner
    have hintents : (c.retryStart s batch).state.intents =
        (s.setStates owner.intentIds .queued).intents := by
      rw [retryStart, if_pos hcurrent, hids]
      rfl
    have hgen : s.generated ≤ (c.retryStart s batch).state.generated := by
      rw [retryStart, if_pos hcurrent]
      exact le_rfl
    refine advances_setClaimed h howner hintents hdesks ?_ hgen
    refine (h.desks batch.slotId).giveBack howner ?_ ?_
    · intro id intent hi hc
      rw [if_pos rfl, if_pos (hmem ▸ (h.mem_claimed hi).mpr hc)]
    · intro id intent hi _ hc
      exact if_neg fun hid ↦ hc ((h.mem_claimed hi).mp (hmem ▸ hid))
  · rw [retryStart, if_neg hcurrent]
    exact advances_refl h

end Zaowutai.Team
