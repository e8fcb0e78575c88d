import Zaowutai.Team.CoordinatorInvariant

/-!
# The invariant through enqueueing

Leases change no desk, a commit and a recovery put one fresh intent into a
lane, and clearing stale work takes queued intents out of their lanes.
-/

namespace Zaowutai.Team

open Zaowutai.Lib SlotWorkCoordinator

variable {c : SlotWorkCoordinator} {s : CoordinatorState} {slotId : String}

theorem advances_acquireEnqueue (h : WellFormed c s) (answers : PortAnswers)
    (request : EnqueueRequest) : Advances c s (c.acquireEnqueue s answers request).state := by
  simp only [acquireEnqueue]
  split
  · exact advances_setSlot h rfl (desk_slotOrNew _) rfl le_rfl
  · exact advances_setSlot h rfl (desk_slotOrNew _) rfl (Nat.le_succ _)

theorem desk_enqueueIntent (slot : SlotState) (source : WorkSource) (intentId : String) :
    (enqueueIntent slot source intentId).desk = slot.desk.prepend source.priority [intentId] ∨
      (enqueueIntent slot source intentId).desk = slot.desk.append source.priority [intentId] := by
  unfold enqueueIntent
  split
  · exact Or.inl (desk_pushFront _ _)
  · exact Or.inr (desk_pushBack _ _)

theorem advances_commitEnqueue (h : WellFormed c s) (lease : EnqueueLease)
    (messageId : Option String) (now : ℤ) :
    Advances c s (c.commitEnqueue s lease messageId now).state := by
  unfold commitEnqueue
  split
  · exact advances_refl h
  · next slot disposition hcheck =>
      have hslot := (checkCommit_ok hcheck).1
      refine advances_insert h
        (c.committedIntent (c.generateId s.generated) lease messageId now)
        rfl rfl rfl (fun _ ↦ deskAt_insert rfl) ?_ rfl
      have hdesk : s.deskAt lease.slotId = slot.desk := deskAt_of_lookup hslot
      change _ = (s.deskAt lease.slotId).prepend _ _ ∨ _ = (s.deskAt lease.slotId).append _ _
      rw [hdesk]
      exact desk_enqueueIntent slot lease.source _

theorem advances_abortEnqueue (h : WellFormed c s) (lease : EnqueueLease) :
    Advances c s (c.abortEnqueue s lease).state := by
  unfold abortEnqueue
  split
  · exact advances_refl h
  · split
    · exact advances_refl h
    · exact advances_idle h (fun _ ↦ rfl) (fun _ ↦ rfl) le_rfl

theorem lookup_createRecovery (messageId : String) (role : TeamRunTargetRole) (now : ℤ) :
    ((c.createRecovery s slotId messageId role now).slots.lookup slotId).isSome =
      (s.slots.lookup slotId).isSome := by
  simp [createRecovery, CoordinatorState.modifySlot, CoordinatorState.insertIntent]

theorem advances_createRecovery (h : WellFormed c s) {slot : SlotState}
    (hslot : s.slots.lookup slotId = some slot) (messageId : String) (role : TeamRunTargetRole)
    (now : ℤ) : Advances c s (c.createRecovery s slotId messageId role now) := by
  have hslots : (c.createRecovery s slotId messageId role now).slots =
      s.slots.modify slotId fun slot ↦ slot.pushBack .background (c.generateId s.generated) := rfl
  refine advances_insert h
    (c.recoveryIntent (c.generateId s.generated) slotId messageId role now)
    rfl rfl rfl (fun _ ↦ deskAt_modify_of_lookup hslots hslot) (Or.inr ?_) rfl
  have hdesk : s.deskAt slotId = slot.desk := deskAt_of_lookup hslot
  rw [desk_pushBack, ← hdesk]
  rfl

theorem advances_recoverMessage (h : WellFormed c s) (hslot : (s.slots.lookup slotId).isSome = true)
    (role : TeamRunTargetRole) (now : ℤ) (created : List String) (messageId : String) :
    Advances c s (c.recoverMessage slotId role now (s, created) messageId).1 ∧
      ((c.recoverMessage slotId role now (s, created) messageId).1.slots.lookup
        slotId).isSome = true := by
  unfold recoverMessage
  split
  · exact ⟨advances_refl h, hslot⟩
  · obtain ⟨slot, hlookup⟩ := Option.isSome_iff_exists.mp hslot
    exact ⟨advances_createRecovery h hlookup messageId role now,
      (lookup_createRecovery messageId role now).trans hslot⟩

theorem advances_recoverAll (h : WellFormed c s) (hslot : (s.slots.lookup slotId).isSome = true)
    (role : TeamRunTargetRole) (now : ℤ) (created unread : List String) :
    Advances c s (unread.foldl (c.recoverMessage slotId role now) (s, created)).1 := by
  induction unread generalizing s created with
  | nil => exact advances_refl h
  | cons messageId unread ih =>
      obtain ⟨hstep, hslot'⟩ := advances_recoverMessage h hslot role now created messageId
      exact hstep.trans (ih hstep.wellFormed hslot' _)

theorem advances_retire (h : WellFormed c s) {s' : CoordinatorState} {ids : List String}
    (state : WorkIntentState) {desk : Desk} (hstate : state.isTerminal = true)
    (hids : ∀ id ∈ ids, ∀ intent, s.intents.lookup id = some intent →
      intent.slotId = slotId ∧ intent.state.isTerminal = false)
    (hintents : s'.intents = (s.setStates ids state).intents)
    (hdesks : ∀ other, s'.deskAt other = if other = slotId then desk else s.deskAt other)
    (hlane : desk.lane = ((s.deskAt slotId).remove fun id ↦ decide (id ∈ ids)).lane)
    (howner : (desk.owner = (s.deskAt slotId).owner ∧
        ∀ id ∈ (s.deskAt slotId).claimedIds, id ∉ ids) ∨
      (desk.owner = none ∧ ∀ id ∈ (s.deskAt slotId).claimedIds, id ∈ ids))
    (hgen : s.generated ≤ s'.generated) : Advances c s s' := by
  refine advances_restate_slot (f := fun id intent ↦ if id ∈ ids then state else intent.state)
    h hintents hdesks ?_ ?_ ?_ hgen
  · intro id intent hi ht
    refine if_neg fun hid ↦ ?_
    simp [(hids id hid intent hi).2] at ht
  · intro id intent hi hne
    exact if_neg fun hid ↦ hne (hids id hid intent hi).1
  · refine (h.desks slotId).retire (fun id ↦ decide (id ∈ ids)) ?_ ?_ hlane ?_
    · intro id intent _ _ hid
      rw [if_pos (of_decide_eq_true hid)]
      exact hstate
    · intro id intent _ _ hid
      exact if_neg (of_decide_eq_false hid)
    · simpa using howner

theorem advances_retireQueued (h : WellFormed c s) (slotId : String) {s' : CoordinatorState}
    {ids : List String} (state : WorkIntentState) (hstate : state.isTerminal = true)
    (hids : ∀ id ∈ ids, ∃ p, id ∈ (s.deskAt slotId).lane p)
    (hintents : s'.intents = (s.setStates ids state).intents)
    (hdesks : ∀ other, s'.deskAt other = if other = slotId then
      (s.deskAt slotId).remove fun id ↦ decide (id ∈ ids) else s.deskAt other)
    (hgen : s.generated ≤ s'.generated) : Advances c s s' := by
  refine advances_retire h state hstate ?_ hintents hdesks rfl (Or.inl ⟨rfl, ?_⟩) hgen
  · intro id hid intent hi
    obtain ⟨p, hp⟩ := hids id hid
    have hq := ((h.desks slotId).mem_lane hi p).mp hp
    exact ⟨hq.1, by rw [hq.2.2]; rfl⟩
  · intro id hid hmem
    obtain ⟨p, hp⟩ := hids id hmem
    exact (h.desks slotId).lane_disjoint hp hid

theorem mem_lane_of_queuedIds {id : String}
    (hid : id ∈ (s.slots.lookup slotId).elim [] SlotState.queuedIds) :
    ∃ p, id ∈ (s.deskAt slotId).lane p := by
  unfold CoordinatorState.deskAt
  cases hslot : s.slots.lookup slotId with
  | none => simp [hslot] at hid
  | some slot =>
      rw [hslot] at hid
      exact (SlotState.mem_queuedIds slot id).mp hid

theorem desk_reconciledSlot (unread : List String) (role : TeamRunTargetRole) :
    (reconciledSlot s slotId unread role).desk = s.deskAt slotId := by
  rw [← desk_slotOrNew role]
  rfl

theorem advances_clearStale (h : WellFormed c s) (slotId : String) (unread : List String)
    (role : TeamRunTargetRole) (staleCandidates : List String) :
    Advances c s (clearStale s slotId unread role staleCandidates) := by
  have hslots : (clearStale s slotId unread role staleCandidates).slots =
      s.slots.insert slotId ((reconciledSlot s slotId unread role).removeAllQueued
        (staleIntents s slotId unread staleCandidates)) := rfl
  refine advances_retireQueued h slotId .completed rfl ?_ rfl (fun other ↦ ?_) le_rfl
  · exact fun id hid ↦ mem_lane_of_queuedIds (List.mem_filter.mp hid).1
  · rw [deskAt_insert hslots, desk_removeAllQueued, desk_reconciledSlot]

theorem advances_reconcileMailboxSnapshot (h : WellFormed c s) (slotId : String)
    (unread : List String) (role : TeamRunTargetRole) (staleCandidates : List String) (now : ℤ) :
    Advances c s
      (c.reconcileMailboxSnapshot s slotId unread role staleCandidates now).state := by
  have hclear := advances_clearStale h slotId unread role staleCandidates
  refine hclear.trans (advances_recoverAll hclear.wellFormed ?_ role now [] unread)
  simp [clearStale, CoordinatorState.setSlot]

end Zaowutai.Team
