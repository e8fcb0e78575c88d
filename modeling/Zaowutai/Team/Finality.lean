import Zaowutai.Team.Representation
import Zaowutai.Team.SlotPersistence

/-!
# Removal and stop

A removed slot is never worked again and a stopped session accepts nothing,
as long as no operation brings work into a removed slot or opens a slot of the
stopped session again.
-/

namespace Zaowutai.Team

open Zaowutai.Lib SlotWorkCoordinator

structure ClosingHistory where
  state : CoordinatorState
  removed : List String
  stopped : Bool

def ClosingHistory.initial : ClosingHistory := ⟨.empty, [], false⟩

namespace SlotWorkCoordinator

variable (c : SlotWorkCoordinator)

def closingStep (h : ClosingHistory) (op : CoordinatorOp) : ClosingHistory where
  state := c.step h.state op
  removed := match op with
    | .removeSlot slotId => slotId :: h.removed
    | _ => h.removed
  stopped := match op with
    | .stop => true
    | _ => h.stopped

end SlotWorkCoordinator

/-- The operation respects the removals and the stop before it. -/
def RespectsClosing (c : SlotWorkCoordinator) (h : ClosingHistory) : CoordinatorOp → Prop
  | .next slotId => slotId ∈ h.removed ∨ h.stopped = true →
      ∀ batch, (c.next h.state slotId).result ≠ .claim batch
  | .commitEnqueue lease messageId now => lease.slotId ∈ h.removed ∨ h.stopped = true →
      ∀ commit, (c.commitEnqueue h.state lease messageId now).result ≠ .ok commit
  | .acquireEnqueue answers request => h.stopped = true →
      ∀ lease, (c.acquireEnqueue h.state answers request).result ≠ .ok lease
  | _ => True

structure KeepsClosed (c : SlotWorkCoordinator) (h : ClosingHistory) (op : CoordinatorOp) : Prop where
  genuine : GenuineBatches c h.state op
  known : ∀ slotId, op = .removeSlot slotId → (h.state.slots.lookup slotId).isSome = true
  unread : ∀ slotId unread role staleCandidates now,
    op = .reconcileMailboxSnapshot slotId unread role staleCandidates now →
      slotId ∈ h.removed → unread = []
  shut : h.stopped = true → ∀ slotId, ¬ Reopens h.state op slotId

/-- The invariant of the histories in which the callers keep to that. -/
structure Closing (c : SlotWorkCoordinator) (h : ClosingHistory) : Prop where
  wellFormed : WellFormed c h.state
  marked : ∀ slotId ∈ h.removed, ∃ slot, h.state.slots.lookup slotId = some slot ∧
    slot.removed = true
  ended : ∀ slotId ∈ h.removed, ∀ id intent, h.state.intents.lookup id = some intent →
    intent.slotId = slotId → intent.state.isTerminal = true
  stopped : h.stopped = true → ∀ slotId slot, h.state.slots.lookup slotId = some slot →
    slot.isStopped

section Invariant

variable {c : SlotWorkCoordinator} {h : ClosingHistory} {op : CoordinatorOp}

theorem closing_initial : Closing c .initial where
  wellFormed := wellFormed_empty
  marked := by simp [ClosingHistory.initial]
  ended := by simp [ClosingHistory.initial]
  stopped := by simp [ClosingHistory.initial]

theorem not_enters (hclosing : Closing c h) (hop : KeepsClosed c h op) {slotId : String}
    (hremoved : slotId ∈ h.removed) : ¬ Enters h.state op slotId := by
  intro henters
  cases op with
  | commitEnqueue lease messageId now =>
      obtain ⟨_, slot, hslot, hopen⟩ := henters
      obtain ⟨marked, hmarked, hr⟩ := hclosing.marked slotId hremoved
      obtain rfl : slot = marked := Option.some.inj (hslot.symm.trans hmarked)
      exact absurd (hopen.symm.trans hr) (by simp)
  | reconcileMailboxSnapshot id unread role staleCandidates now =>
      obtain ⟨rfl, hne⟩ := henters
      exact hne (hop.unread _ unread role staleCandidates now rfl hremoved)
  | _ => exact henters

theorem ended_step (hclosing : Closing c h) (hop : KeepsClosed c h op) {slotId : String}
    (hremoved : slotId ∈ h.removed) {id : String} {intent : WorkIntent}
    (hi : (c.step h.state op).intents.lookup id = some intent) (hslot : intent.slotId = slotId) :
    intent.state.isTerminal = true := by
  rcases (persists_step (c := c) op).intents id intent hi with ⟨old, hold, heq⟩ | henters
  · have hended := hclosing.ended slotId hremoved id old hold (heq.trans hslot)
    have hkept := (advances_step hclosing.wellFormed hop.genuine).terminal id old hold hended
    obtain rfl := Option.some.inj (hkept.symm.trans hi)
    exact hended
  · exact absurd (hslot ▸ henters) (not_enters hclosing hop hremoved)

theorem ended_removeSlot (hclosing : Closing c h) {slotId id : String} {intent : WorkIntent}
    (hi : (c.step h.state (.removeSlot slotId)).intents.lookup id = some intent)
    (hslot : intent.slotId = slotId) : intent.state.isTerminal = true := by
  have hintents : (c.step h.state (.removeSlot slotId)).intents = restated h.state.intents
      fun id intent ↦ if id ∈ removedIntentIds h.state slotId then
        .cancelled "slot_removed" else intent.state := rfl
  obtain ⟨old, hold, rfl⟩ := lookup_restated (hintents ▸ hi)
  have hmem : id ∈ removedIntentIds h.state slotId ↔
      old.slotId = slotId ∧ old.state.isTerminal = false :=
    mem_removedIntentIds hclosing.wellFormed hold
  by_cases hid : id ∈ removedIntentIds h.state slotId
  · simp only [hid, if_true]
    rfl
  · simp only [hid, if_false]
    by_contra hlive
    exact hid (hmem.mpr ⟨hslot, by simpa using hlive⟩)

theorem marked_step (hclosing : Closing c h) {slotId : String} (hremoved : slotId ∈ h.removed) :
    ∃ slot, (c.step h.state op).slots.lookup slotId = some slot ∧ slot.removed = true := by
  obtain ⟨slot, hslot, hr⟩ := hclosing.marked slotId hremoved
  obtain ⟨slot', hslot', hkept⟩ := (persists_step (c := c) op).slots.removed slotId slot hslot
  exact ⟨slot', hslot', hkept hr⟩

theorem marked_removeSlot {slotId : String}
    (hknown : (h.state.slots.lookup slotId).isSome = true) :
    ∃ slot, (c.step h.state (.removeSlot slotId)).slots.lookup slotId = some slot ∧
      slot.removed = true := by
  obtain ⟨slot, hslot⟩ := Option.isSome_iff_exists.mp hknown
  have hslots : (c.step h.state (.removeSlot slotId)).slots =
      h.state.slots.modify slotId SlotState.remove := rfl
  refine ⟨slot.remove, ?_, rfl⟩
  rw [hslots, Table.lookup_modify, if_pos rfl, hslot]
  rfl

theorem stopped_step (hclosing : Closing c h) (hop : KeepsClosed c h op) (hstopped : h.stopped = true)
    {slotId : String} {slot : SlotState}
    (hslot : (c.step h.state op).slots.lookup slotId = some slot) : slot.isStopped := by
  rcases (persists_step (c := c) op).slots.stopped slotId slot hslot with
    ⟨old, hold, hkept⟩ | hreopens | hdone
  · exact hkept (hclosing.stopped hstopped slotId old hold)
  · exact absurd hreopens (hop.shut hstopped slotId)
  · exact hdone

theorem stopped_stop {s : CoordinatorState} {slotId : String} {slot : SlotState}
    (hslot : (c.step s .stop).slots.lookup slotId = some slot) : slot.isStopped := by
  have hslots : (c.step s .stop).slots = s.slots.mapValues fun _ ↦ SlotState.stop := rfl
  rw [hslots, Table.lookup_mapValues] at hslot
  obtain ⟨old, _, rfl⟩ := Option.map_eq_some_iff.mp hslot
  rfl

theorem mem_removed_step {slotId : String} (hmem : slotId ∈ (c.closingStep h op).removed) :
    slotId ∈ h.removed ∨ op = .removeSlot slotId := by
  cases op with
  | removeSlot id =>
      rcases List.mem_cons.mp hmem with rfl | hmem
      · exact Or.inr rfl
      · exact Or.inl hmem
  | _ => exact Or.inl hmem

theorem closing_step (hclosing : Closing c h) (hop : KeepsClosed c h op) :
    Closing c (c.closingStep h op) where
  wellFormed := (advances_step hclosing.wellFormed hop.genuine).wellFormed
  marked slotId hmem := by
    rcases mem_removed_step hmem with hmem | rfl
    · exact marked_step hclosing hmem
    · exact marked_removeSlot (c := c) (hop.known slotId rfl)
  ended slotId hmem id intent hi hslot := by
    rcases mem_removed_step hmem with hmem | rfl
    · exact ended_step hclosing hop hmem hi hslot
    · exact ended_removeSlot hclosing hi hslot
  stopped hstopped slotId slot hslot := by
    by_cases hstop : op = .stop
    · subst hstop
      exact stopped_stop (c := c) hslot
    · have hbefore : h.stopped = true := by
        cases op with
        | stop => exact (hstop rfl).elim
        | _ => exact hstopped
      exact stopped_step hclosing hop hbefore hslot

theorem next_of_empty (hwf : WellFormed c h.state) {slotId : String}
    (hended : ∀ id intent, h.state.intents.lookup id = some intent → intent.slotId = slotId →
      intent.state.isTerminal = true) (batch : WorkBatch) :
    (c.next h.state slotId).result ≠ .claim batch := by
  have hlanes : ∀ p, h.state.lane slotId p = [] := by
    intro p
    refine List.eq_nil_iff_forall_not_mem.mpr fun id hid ↦ ?_
    rw [← lane_deskAt] at hid
    obtain ⟨intent, hi, hqueued⟩ := (((hwf.desks slotId).lanes p).mem_iff id).mp hid
    have hterminal := hended id intent hi hqueued.1
    rw [hqueued.2.2] at hterminal
    cases hterminal
  unfold next
  split
  · simp
  · next slot hslot =>
      have hqueues : ∀ p, slot.queue p = [] := by
        intro p
        have hlane := hlanes p
        rw [CoordinatorState.lane, hslot] at hlane
        exact hlane
      split
      · simp
      · split
        · simp
        · split
          · simp
          · split
            · simp
            · next p _ => simp [hqueues p]

theorem next_of_stopped {slotId : String}
    (hstopped : ∀ slot, h.state.slots.lookup slotId = some slot → slot.isStopped)
    (batch : WorkBatch) : (c.next h.state slotId).result ≠ .claim batch := by
  rcases next_cases (c := c) (s := h.state) slotId with
    ⟨_, hno⟩ | ⟨slot, p, ids, hslot, _, hready, _, _, _⟩
  · exact hno batch
  · have heq := hready.symm.trans (hstopped slot hslot)
    cases heq

theorem commit_refused {lease : EnqueueLease} {messageId : Option String} {now : ℤ}
    (hslot : ∀ slot, h.state.slots.lookup lease.slotId = some slot →
      slot.removed = true ∨ slot.isStopped) (commit : EnqueueCommit) :
    (c.commitEnqueue h.state lease messageId now).result ≠ .ok commit := by
  unfold commitEnqueue
  split
  · simp
  · next slot disposition hcheck =>
      obtain ⟨hlookup, hvalid, _⟩ := checkCommit_ok hcheck
      obtain ⟨hopen, hrunning⟩ := removed_of_validate hvalid
      rcases hslot slot hlookup with hremoved | hstopped
      · exact absurd (hopen.symm.trans hremoved) (by simp)
      · exact absurd hstopped hrunning

theorem acquire_refused {answers : PortAnswers} {request : EnqueueRequest}
    (hknown : ∃ slot, h.state.slots.lookup request.slotId = some slot ∧ slot.isStopped)
    (lease : EnqueueLease) : (c.acquireEnqueue h.state answers request).result ≠ .ok lease := by
  obtain ⟨slot, hslot, hstopped⟩ := hknown
  simp only [acquireEnqueue]
  split
  · simp
  · next hvalid =>
      have hrunning := (removed_of_validate hvalid).2
      refine absurd ?_ hrunning
      rw [SlotState.isStopped, CoordinatorState.slotOrNew, hslot]
      exact hstopped

theorem respects_step (hclosing : Closing c h) (hop : KeepsClosed c h op) :
    RespectsClosing c h op := by
  cases op with
  | next slotId =>
      rintro (hremoved | hstopped) batch
      · exact next_of_empty hclosing.wellFormed (hclosing.ended slotId hremoved) batch
      · exact next_of_stopped (hclosing.stopped hstopped slotId) batch
  | commitEnqueue lease messageId now =>
      rintro hclosed commit
      refine commit_refused (fun slot hslot ↦ ?_) commit
      rcases hclosed with hremoved | hstopped
      · obtain ⟨marked, hmarked, hr⟩ := hclosing.marked _ hremoved
        obtain rfl : marked = slot := Option.some.inj (hmarked.symm.trans hslot)
        exact Or.inl hr
      · exact Or.inr (hclosing.stopped hstopped _ slot hslot)
  | acquireEnqueue answers request =>
      intro hstopped lease
      refine acquire_refused ?_ lease
      cases hslot : h.state.slots.lookup request.slotId with
      | none => exact absurd ⟨rfl, hslot⟩ (hop.shut hstopped request.slotId)
      | some slot => exact ⟨slot, rfl, hclosing.stopped hstopped _ slot hslot⟩
  | _ => trivial

end Invariant

/-- A request for which no run binding is asked. -/
def welcome : EnqueueRequest := ⟨"s", .lead, .spawnWelcome, .background⟩

def noAnswers : PortAnswers := ⟨fun _ ↦ ⟨none, false, false⟩, fun _ ↦ ⟨none, false, false⟩⟩

end Zaowutai.Team
