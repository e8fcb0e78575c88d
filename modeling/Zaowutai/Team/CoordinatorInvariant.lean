import Zaowutai.Team.CoordinatorRun
import Zaowutai.Team.Desk

/-!
# The representation invariant of the coordinator

Every queued intent waits in the lane of its own priority in its own slot,
every claimed intent is listed by the active batch of its slot, and nothing
else is listed anywhere.  Each operation preserves this and never touches a
terminal intent, provided that a batch argument which identifies the active
batch of its slot also lists the intents of that batch.
-/

namespace Zaowutai.Team

open Zaowutai.Lib

section Desks

variable {slot : SlotState} {s s' : CoordinatorState} {slotId other : String}

def CoordinatorState.deskAt (s : CoordinatorState) (slotId : String) : Desk :=
  (s.slots.lookup slotId).elim .empty SlotState.desk

theorem desk_new (role : TeamRunTargetRole) : (SlotState.new role).desk = .empty := by
  simp only [SlotState.desk, Desk.empty, Desk.mk.injEq]
  exact ⟨funext fun p ↦ by simp, rfl⟩

theorem desk_removeAllQueued (ids : List String) :
    (slot.removeAllQueued ids).desk = slot.desk.remove fun id ↦ decide (id ∈ ids) := by
  simp only [SlotState.desk, Desk.remove, SlotState.active_removeAllQueued, Desk.mk.injEq, and_true]
  funext p
  simp

theorem desk_pushFront (p : WorkPriority) (id : String) :
    (slot.pushFront p id).desk = slot.desk.prepend p [id] := by
  simp only [SlotState.desk, SlotState.pushFront, Desk.prepend, SlotState.active_modifyQueue,
    Desk.mk.injEq, and_true]
  funext q
  simp

theorem desk_pushBack (p : WorkPriority) (id : String) :
    (slot.pushBack p id).desk = slot.desk.append p [id] := by
  simp only [SlotState.desk, SlotState.pushBack, Desk.append, SlotState.active_modifyQueue,
    Desk.mk.injEq, and_true]
  funext q
  simp

theorem desk_slotOrNew (role : TeamRunTargetRole) :
    (s.slotOrNew slotId role).desk = s.deskAt slotId := by
  unfold CoordinatorState.slotOrNew CoordinatorState.deskAt
  cases s.slots.lookup slotId with
  | none => exact desk_new role
  | some slot => rfl

theorem deskAt_of_lookup (h : s.slots.lookup slotId = some slot) : s.deskAt slotId = slot.desk := by
  simp [CoordinatorState.deskAt, h]

theorem deskAt_insert (h : s'.slots = s.slots.insert slotId slot) :
    s'.deskAt other = if other = slotId then slot.desk else s.deskAt other := by
  unfold CoordinatorState.deskAt
  rw [h, Table.lookup_insert_eq]
  split <;> rfl

theorem deskAt_modify {f : SlotState → SlotState} {g : Desk → Desk}
    (h : s'.slots = s.slots.modify slotId f) (hf : ∀ slot, (f slot).desk = g slot.desk)
    (hg : g .empty = .empty) :
    s'.deskAt other = if other = slotId then g (s.deskAt other) else s.deskAt other := by
  unfold CoordinatorState.deskAt
  rw [h, Table.lookup_modify]
  split
  · cases s.slots.lookup other with
    | none => exact hg.symm
    | some slot => exact hf slot
  · rfl

theorem deskAt_modify_of_lookup {f : SlotState → SlotState}
    (h : s'.slots = s.slots.modify slotId f) (hslot : s.slots.lookup slotId = some slot) :
    s'.deskAt other = if other = slotId then (f slot).desk else s.deskAt other := by
  unfold CoordinatorState.deskAt
  rw [h, Table.lookup_modify]
  split
  · next heq => rw [heq, hslot]; rfl
  · rfl

theorem owner_deskAt : (s.deskAt slotId).owner =
    (s.activeBatch slotId).map fun active ↦ active.batch.core := by
  unfold CoordinatorState.deskAt CoordinatorState.activeBatch
  cases s.slots.lookup slotId <;> rfl

end Desks

/-- The invariant carried by every run of the coordinator. -/
structure WellFormed (c : SlotWorkCoordinator) (s : CoordinatorState) : Prop where
  keys : ∀ id intent, s.intents.lookup id = some intent → intent.intentId = id
  drawn : ∀ id intent, s.intents.lookup id = some intent → ∃ k < s.generated, id = c.generateId k
  desks : ∀ slotId, DeskAgrees s.intents slotId (s.deskAt slotId)

/-- What one operation achieves: the invariant holds afterwards and what was terminal is as it
was. -/
structure Advances (c : SlotWorkCoordinator) (s s' : CoordinatorState) : Prop where
  wellFormed : WellFormed c s'
  terminal : ∀ id intent, s.intents.lookup id = some intent → intent.state.isTerminal = true →
    s'.intents.lookup id = some intent

def Genuine (c : SlotWorkCoordinator) (s : CoordinatorState) (batch : WorkBatch) : Prop :=
  c.isCurrentBatch s batch = true → ∀ active ∈ s.activeBatch batch.slotId,
    batch.intentIds = active.batch.intentIds ∧
      batch.highestPriority = active.batch.highestPriority

instance (c : SlotWorkCoordinator) (s : CoordinatorState) (batch : WorkBatch) :
    Decidable (Genuine c s batch) := by unfold Genuine; infer_instance

def CoordinatorOp.batch? : CoordinatorOp → Option WorkBatch
  | .markStarted batch _ _ | .retryStart batch | .completeBatchWithAck batch
  | .failBatch batch _ | .cancelBatch batch _ | .interruptBatch batch _ _ => some batch
  | _ => none

def GenuineBatches (c : SlotWorkCoordinator) (s : CoordinatorState) (op : CoordinatorOp) : Prop :=
  ∀ batch ∈ op.batch?, Genuine c s batch

instance (c : SlotWorkCoordinator) (s : CoordinatorState) (op : CoordinatorOp) :
    Decidable (GenuineBatches c s op) := by unfold GenuineBatches; infer_instance

section Kinds

variable {c : SlotWorkCoordinator} {s s' s'' : CoordinatorState} {slotId : String}

theorem Advances.trans (h : Advances c s s') (h' : Advances c s' s'') : Advances c s s'' where
  wellFormed := h'.wellFormed
  terminal id intent hi ht := h'.terminal id intent (h.terminal id intent hi ht) ht

theorem wellFormed_empty : WellFormed c .empty where
  keys := by simp [CoordinatorState.empty]
  drawn := by simp [CoordinatorState.empty]
  desks slotId := by
    refine ⟨fun _ ↦ Indexes.nil ?_, Indexes.nil ?_, ?_⟩ <;> simp [CoordinatorState.empty]

theorem WellFormed.lookup_generated (h : WellFormed c s) :
    s.intents.lookup (c.generateId s.generated) = none := by
  cases hi : s.intents.lookup (c.generateId s.generated) with
  | none => rfl
  | some intent =>
      obtain ⟨k, hk, heq⟩ := h.drawn _ _ hi
      have := c.generateId_injective heq
      omega

theorem WellFormed.mem_claimed (h : WellFormed c s) {id : String} {intent : WorkIntent}
    (hi : s.intents.lookup id = some intent) :
    id ∈ (s.deskAt slotId).claimedIds ↔ ClaimedIn slotId intent :=
  (h.desks slotId).mem_claimed hi

theorem advances_idle (h : WellFormed c s)
    (hintents : ∀ id, s'.intents.lookup id = s.intents.lookup id)
    (hdesk : ∀ slotId, s'.deskAt slotId = s.deskAt slotId) (hgen : s.generated ≤ s'.generated) :
    Advances c s s' := by
  have hlookup : ∀ {id intent}, s'.intents.lookup id = some intent →
      s.intents.lookup id = some intent := fun {id} _ hi ↦ (hintents id) ▸ hi
  refine ⟨⟨fun id intent hi ↦ h.keys id intent (hlookup hi), ?_, fun slotId ↦ ?_⟩, ?_⟩
  · intro id intent hi
    obtain ⟨k, hk, hid⟩ := h.drawn id intent (hlookup hi)
    exact ⟨k, hk.trans_le hgen, hid⟩
  · have hagrees := h.desks slotId
    rw [hdesk]
    refine ⟨fun p ↦ (hagrees.lanes p).congr fun id ↦ by rw [hintents],
      hagrees.claimed.congr fun id ↦ by rw [hintents], ?_⟩
    intro batch hb id intent hi
    exact hagrees.owns batch hb id intent (hlookup hi)
  · intro id intent hi _
    rw [hintents]
    exact hi

theorem advances_refl (h : WellFormed c s) : Advances c s s :=
  advances_idle h (fun _ ↦ rfl) (fun _ ↦ rfl) le_rfl

theorem advances_setSlot (h : WellFormed c s) {slot : SlotState}
    (hslots : s'.slots = s.slots.insert slotId slot) (hdesk : slot.desk = s.deskAt slotId)
    (hintents : s'.intents = s.intents) (hgen : s.generated ≤ s'.generated) : Advances c s s' := by
  refine advances_idle h (fun id ↦ by rw [hintents]) (fun other ↦ ?_) hgen
  rw [deskAt_insert hslots]
  split
  · next heq => rw [hdesk, heq]
  · rfl

theorem advances_modifySlot (h : WellFormed c s) {f : SlotState → SlotState}
    (hslots : s'.slots = s.slots.modify slotId f) (hdesk : ∀ slot, (f slot).desk = slot.desk)
    (hintents : s'.intents = s.intents) (hgen : s.generated ≤ s'.generated) : Advances c s s' := by
  refine advances_idle h (fun id ↦ by rw [hintents]) (fun other ↦ ?_) hgen
  rw [deskAt_modify (g := id) hslots hdesk rfl]
  split <;> rfl

theorem advances_restate (h : WellFormed c s) {f : String → WorkIntent → WorkIntentState}
    (hintents : s'.intents = restated s.intents f)
    (hterminal : ∀ id intent, s.intents.lookup id = some intent →
      intent.state.isTerminal = true → f id intent = intent.state)
    (hdesks : ∀ slotId, DeskAgrees (restated s.intents f) slotId (s'.deskAt slotId))
    (hgen : s.generated ≤ s'.generated) : Advances c s s' := by
  refine ⟨⟨?_, ?_, fun slotId ↦ hintents ▸ hdesks slotId⟩, ?_⟩
  · intro id intent hi
    obtain ⟨old, hold, rfl⟩ := lookup_restated (hintents ▸ hi)
    exact h.keys id old hold
  · intro id intent hi
    obtain ⟨old, hold, rfl⟩ := lookup_restated (hintents ▸ hi)
    obtain ⟨k, hk, hid⟩ := h.drawn id old hold
    exact ⟨k, hk.trans_le hgen, hid⟩
  · intro id intent hi ht
    rw [hintents, Table.lookup_mapValues, hi]
    simp [hterminal id intent hi ht]

theorem advances_restate_slot (h : WellFormed c s) {f : String → WorkIntent → WorkIntentState}
    {desk : Desk} (hintents : s'.intents = restated s.intents f)
    (hdesks : ∀ other, s'.deskAt other = if other = slotId then desk else s.deskAt other)
    (hterminal : ∀ id intent, s.intents.lookup id = some intent →
      intent.state.isTerminal = true → f id intent = intent.state)
    (hother : ∀ id intent, s.intents.lookup id = some intent → intent.slotId ≠ slotId →
      f id intent = intent.state)
    (hdesk : DeskAgrees (restated s.intents f) slotId desk)
    (hgen : s.generated ≤ s'.generated) : Advances c s s' := by
  refine advances_restate h hintents hterminal (fun other ↦ ?_) hgen
  rw [hdesks other]
  by_cases heq : other = slotId
  · rw [if_pos heq, heq]
    exact hdesk
  · rw [if_neg heq]
    refine (h.desks other).untouched fun id intent hi hs ↦ hother id intent hi ?_
    exact hs ▸ heq

theorem advances_insert (h : WellFormed c s) (intent : WorkIntent) {desk : Desk}
    (hid : intent.intentId = c.generateId s.generated) (hstate : intent.state = .queued)
    (hintents : s'.intents = s.intents.insert intent.intentId intent)
    (hdesks : ∀ other, s'.deskAt other = if other = intent.slotId then desk else s.deskAt other)
    (hdesk : desk = (s.deskAt intent.slotId).prepend intent.priority [intent.intentId] ∨
      desk = (s.deskAt intent.slotId).append intent.priority [intent.intentId])
    (hgen : s'.generated = s.generated + 1) : Advances c s s' := by
  have hfresh : s.intents.lookup intent.intentId = none := hid ▸ h.lookup_generated
  have hlookup : ∀ {id i}, s'.intents.lookup id = some i →
      (id = intent.intentId ∧ i = intent) ∨ s.intents.lookup id = some i := by
    intro id i hi
    rw [hintents, Table.lookup_insert_eq] at hi
    split at hi
    · next heq => exact Or.inl ⟨heq, (Option.some.inj hi).symm⟩
    · exact Or.inr hi
  refine ⟨⟨?_, ?_, fun slotId ↦ ?_⟩, ?_⟩
  · intro id i hi
    rcases hlookup hi with ⟨rfl, rfl⟩ | hi
    · rfl
    · exact h.keys id i hi
  · intro id i hi
    rcases hlookup hi with ⟨rfl, rfl⟩ | hi
    · exact ⟨s.generated, by omega, hid⟩
    · obtain ⟨k, hk, heq⟩ := h.drawn id i hi
      exact ⟨k, by omega, heq⟩
  · rw [hintents, hdesks]
    by_cases hs : slotId = intent.slotId
    · rw [if_pos hs]
      exact (h.desks slotId).insert_queued hfresh hs.symm hstate (hs ▸ hdesk)
    · rw [if_neg hs]
      exact (h.desks slotId).insert_other hfresh fun heq ↦ hs heq.symm
  · intro id i hi _
    rw [hintents, Table.lookup_insert_eq, if_neg, hi]
    rintro rfl
    rw [hfresh] at hi
    exact absurd hi (by simp)

end Kinds

end Zaowutai.Team
