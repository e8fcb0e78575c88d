import Zaowutai.Team.Evolution

/-!
# What every operation keeps of the slots

No operation drops a slot or takes its removed mark away, a stopped slot stays
stopped unless its constraint is set anew, and intents enter a slot only
through a commit or a reconciliation.
-/

namespace Zaowutai.Team

open Zaowutai.Lib SlotWorkCoordinator

/-- The operation gives the slot a runtime constraint other than `SessionStopped`: it creates the
slot, or it sets the constraint. -/
def Reopens (s : CoordinatorState) (op : CoordinatorOp) (slotId : String) : Prop :=
  match op with
  | .acquireEnqueue _ request => slotId = request.slotId ∧ s.slots.lookup slotId = none
  | .reconcileMailboxSnapshot id _ _ _ _ | .pauseSlot id | .beginRuntimeRestart id _
  | .requestMcpRefresh id _ | .deferMcpRefresh id _ =>
      slotId = id ∧ s.slots.lookup slotId = none
  | .setRuntimeConstraint id constraint => slotId = id ∧ constraint ≠ .sessionStopped
  | _ => False

/-- The operation may put a new intent into the slot. -/
def Enters (s : CoordinatorState) (op : CoordinatorOp) (slotId : String) : Prop :=
  match op with
  | .commitEnqueue lease _ _ =>
      slotId = lease.slotId ∧ ∃ slot, s.slots.lookup slotId = some slot ∧ slot.removed = false
  | .reconcileMailboxSnapshot id unread _ _ _ => slotId = id ∧ unread ≠ []
  | _ => False

def SlotState.isStopped (slot : SlotState) : Prop := slot.runtimeConstraint = .sessionStopped

structure SlotsPersist (s s' : CoordinatorState) (reopens : String → Prop) : Prop where
  removed : ∀ slotId slot, s.slots.lookup slotId = some slot →
    ∃ slot', s'.slots.lookup slotId = some slot' ∧ (slot.removed = true → slot'.removed = true)
  stopped : ∀ slotId slot', s'.slots.lookup slotId = some slot' →
    (∃ slot, s.slots.lookup slotId = some slot ∧ (slot.isStopped → slot'.isStopped)) ∨
      reopens slotId ∨ slot'.isStopped

def IntentsPersist (s s' : CoordinatorState) (enters : String → Prop) : Prop :=
  ∀ id intent, s'.intents.lookup id = some intent →
    (∃ old, s.intents.lookup id = some old ∧ old.slotId = intent.slotId) ∨ enters intent.slotId

section Rules

variable {s s' s'' : CoordinatorState} {slotId : String} {reopens enters : String → Prop}

theorem slots_same (h : s'.slots = s.slots) : SlotsPersist s s' reopens where
  removed slotId slot hslot := ⟨slot, by rw [h]; exact hslot, id⟩
  stopped slotId slot' hslot := Or.inl ⟨slot', by rw [← h]; exact hslot, id⟩

theorem SlotsPersist.trans (h : SlotsPersist s s' reopens)
    (h' : SlotsPersist s' s'' fun _ ↦ False) : SlotsPersist s s'' reopens where
  removed slotId slot hslot := by
    obtain ⟨mid, hmid, hkept⟩ := h.removed slotId slot hslot
    obtain ⟨last, hlast, hkept'⟩ := h'.removed slotId mid hmid
    exact ⟨last, hlast, fun hr ↦ hkept' (hkept hr)⟩
  stopped slotId last hlast := by
    rcases h'.stopped slotId last hlast with ⟨mid, hmid, hkept⟩ | hno | hstopped
    · rcases h.stopped slotId mid hmid with ⟨slot, hslot, hkept'⟩ | hreopens | hstopped
      · exact Or.inl ⟨slot, hslot, fun hs ↦ hkept (hkept' hs)⟩
      · exact Or.inr (Or.inl hreopens)
      · exact Or.inr (Or.inr (hkept hstopped))
    · exact hno.elim
    · exact Or.inr (Or.inr hstopped)

theorem slots_modify {f : SlotState → SlotState} (h : s'.slots = s.slots.modify slotId f)
    (hremoved : ∀ slot, slot.removed = true → (f slot).removed = true)
    (hstopped : ∀ slot, (f slot).runtimeConstraint = slot.runtimeConstraint) :
    SlotsPersist s s' reopens where
  removed other slot hslot := by
    rw [h, Table.lookup_modify, hslot]
    split
    · exact ⟨f slot, rfl, hremoved slot⟩
    · exact ⟨slot, rfl, id⟩
  stopped other slot' hslot := by
    rw [h, Table.lookup_modify] at hslot
    split at hslot
    · obtain ⟨slot, hold, rfl⟩ := Option.map_eq_some_iff.mp hslot
      refine Or.inl ⟨slot, hold, fun hs ↦ ?_⟩
      exact (hstopped slot).trans hs
    · exact Or.inl ⟨slot', hslot, id⟩

theorem slots_insert {slot' : SlotState} (h : s'.slots = s.slots.insert slotId slot')
    (hremoved : ∀ slot, s.slots.lookup slotId = some slot → slot.removed = true →
      slot'.removed = true)
    (hstopped : (∃ slot, s.slots.lookup slotId = some slot ∧ (slot.isStopped → slot'.isStopped)) ∨
      reopens slotId ∨ slot'.isStopped) : SlotsPersist s s' reopens where
  removed other slot hslot := by
    rw [h, Table.lookup_insert_eq]
    split
    · next heq => exact ⟨slot', rfl, hremoved slot (heq ▸ hslot)⟩
    · exact ⟨slot, hslot, id⟩
  stopped other slot hslot := by
    rw [h, Table.lookup_insert_eq] at hslot
    split at hslot
    · next heq =>
        cases hslot
        exact heq ▸ hstopped
    · exact Or.inl ⟨slot, hslot, id⟩

theorem slots_rewrite {slot slot' : SlotState} (hslot : s.slots.lookup slotId = some slot)
    (h : s'.slots = s.slots.insert slotId slot') (hremoved : slot'.removed = slot.removed)
    (hstopped : slot.isStopped → slot'.isStopped) : SlotsPersist s s' reopens := by
  refine slots_insert h (fun old hold hr ↦ ?_) (Or.inl ⟨slot, hslot, hstopped⟩)
  obtain rfl : old = slot := Option.some.inj (hold.symm.trans hslot)
  rw [hremoved]
  exact hr

theorem slots_slotOrNew {slot' : SlotState} (role : TeamRunTargetRole)
    (h : s'.slots = s.slots.insert slotId slot')
    (hremoved : slot'.removed = (s.slotOrNew slotId role).removed)
    (hstopped : (s.slotOrNew slotId role).isStopped → slot'.isStopped)
    (hreopens : s.slots.lookup slotId = none → reopens slotId) : SlotsPersist s s' reopens := by
  have hold : ∀ slot, s.slots.lookup slotId = some slot → s.slotOrNew slotId role = slot := by
    intro slot hslot
    simp [CoordinatorState.slotOrNew, hslot]
  cases hslot : s.slots.lookup slotId with
  | some slot =>
      rw [hold slot hslot] at hremoved hstopped
      exact slots_rewrite hslot h hremoved hstopped
  | none => exact slots_insert h (by simp [hslot]) (Or.inr (Or.inl (hreopens hslot)))

theorem intents_same (h : s'.intents = s.intents) : IntentsPersist s s' enters :=
  fun _ intent hi ↦ Or.inl ⟨intent, h ▸ hi, rfl⟩

theorem intents_restated {f : String → WorkIntent → WorkIntentState}
    (h : s'.intents = restated s.intents f) : IntentsPersist s s' enters := by
  intro id intent hi
  obtain ⟨old, hold, rfl⟩ := lookup_restated (h ▸ hi)
  exact Or.inl ⟨old, hold, rfl⟩

theorem intents_setStates (ids : List String) (state : WorkIntentState)
    (h : s'.intents = (s.setStates ids state).intents) : IntentsPersist s s' enters :=
  intents_restated (f := fun id intent ↦ if id ∈ ids then state else intent.state) h

theorem intents_insert {key : String} (intent : WorkIntent)
    (h : s'.intents = s.intents.insert key intent) (henters : enters intent.slotId) :
    IntentsPersist s s' enters := by
  intro id new hi
  rw [h, Table.lookup_insert_eq] at hi
  split at hi
  · cases hi
    exact Or.inr henters
  · exact Or.inl ⟨new, hi, rfl⟩

theorem IntentsPersist.trans (h : IntentsPersist s s' enters) (h' : IntentsPersist s' s'' enters) :
    IntentsPersist s s'' enters := by
  intro id intent hi
  rcases h' id intent hi with ⟨mid, hmid, heq⟩ | henters
  · rcases h id mid hmid with ⟨old, hold, heq'⟩ | henters
    · exact Or.inl ⟨old, hold, heq'.trans heq⟩
    · exact Or.inr (heq ▸ henters)
  · exact Or.inr henters

end Rules

section Marks

variable (slot : SlotState)

def SlotState.marks : Bool × RuntimeConstraint := (slot.removed, slot.runtimeConstraint)

theorem marks_modifyQueue (p : WorkPriority) (f : List String → List String) :
    (slot.modifyQueue p f).marks = slot.marks := by cases p <;> rfl

theorem marks_pushFrontAll (p : WorkPriority) (ids : List String) :
    (ids.foldl (fun slot id ↦ slot.pushFront p id) slot).marks = slot.marks := by
  induction ids generalizing slot with
  | nil => rfl
  | cons id ids ih =>
      rw [List.foldl_cons, ih]
      exact marks_modifyQueue slot p _

theorem marks_requeueFrontAll (s : CoordinatorState) (ids : List String) :
    (ids.foldl (requeueFront s) slot).marks = slot.marks := by
  induction ids generalizing slot with
  | nil => rfl
  | cons id ids ih =>
      rw [List.foldl_cons, ih]
      unfold requeueFront
      cases priorityOf s id with
      | none => rfl
      | some p => exact marks_modifyQueue slot p _

theorem marks_requeueAll (intents : List WorkIntent) :
    (intents.foldl (fun slot intent ↦ slot.pushBack intent.priority intent.intentId) slot).marks =
      slot.marks := by
  induction intents generalizing slot with
  | nil => rfl
  | cons intent intents ih =>
      rw [List.foldl_cons, ih]
      exact marks_modifyQueue slot _ _

theorem marks_removeAllQueued (ids : List String) :
    (slot.removeAllQueued ids).marks = slot.marks := by
  induction ids generalizing slot with
  | nil => rfl
  | cons id ids ih => exact ih (slot.removeQueued id)

theorem marks_countFailures (exhausted messageIds : List String) :
    (messageIds.foldl SlotState.countFailure (slot, exhausted)).1.marks = slot.marks := by
  induction messageIds generalizing slot exhausted with
  | nil => rfl
  | cons messageId messageIds ih => exact ih _ _

theorem marks_releaseSlot (batch : WorkBatch) (delivery : DeliveryOutcome) :
    (releaseSlot slot batch delivery).1.marks = slot.marks := by
  cases delivery with
  | notFailed => rfl
  | failed => exact marks_countFailures { slot with active := none } [] batch.mailboxMessageIds

variable {slot} {slot' : SlotState}

theorem removed_of_marks (h : slot'.marks = slot.marks) : slot'.removed = slot.removed :=
  congrArg Prod.fst h

theorem constraint_of_marks (h : slot'.marks = slot.marks) :
    slot'.runtimeConstraint = slot.runtimeConstraint := congrArg Prod.snd h

end Marks

section Operations

variable {c : SlotWorkCoordinator} {s : CoordinatorState}

structure Persists (s s' : CoordinatorState) (reopens enters : String → Prop) : Prop where
  slots : SlotsPersist s s' reopens
  intents : IntentsPersist s s' enters

variable {reopens enters : String → Prop}

theorem persists_refl : Persists s s reopens enters := ⟨slots_same rfl, intents_same rfl⟩

theorem persists_acquireEnqueue (answers : PortAnswers) (request : EnqueueRequest) :
    Persists s (c.acquireEnqueue s answers request).state
      (fun slotId ↦ slotId = request.slotId ∧ s.slots.lookup slotId = none) enters := by
  simp only [acquireEnqueue]
  split
  · exact ⟨slots_slotOrNew request.role rfl rfl id fun hnone ↦ ⟨rfl, hnone⟩, intents_same rfl⟩
  · exact ⟨slots_slotOrNew request.role rfl rfl id fun hnone ↦ ⟨rfl, hnone⟩, intents_same rfl⟩

theorem removed_of_validate {slotId : String} {slot : SlotState}
    (h : validateEnqueueConstraint slotId slot = .ok ()) :
    slot.removed = false ∧ ¬ slot.isStopped := by
  unfold validateEnqueueConstraint at h
  split at h
  · cases h
  · next hremoved =>
      refine ⟨by simpa using hremoved, fun hstopped ↦ ?_⟩
      rw [show slot.runtimeConstraint = .sessionStopped from hstopped] at h
      cases h

theorem persists_commitEnqueue (lease : EnqueueLease) (messageId : Option String) (now : ℤ) :
    Persists s (c.commitEnqueue s lease messageId now).state reopens
      (fun slotId ↦ slotId = lease.slotId ∧
        ∃ slot, s.slots.lookup slotId = some slot ∧ slot.removed = false) := by
  unfold commitEnqueue
  split
  · exact persists_refl
  · next slot disposition hcheck =>
      obtain ⟨hslot, hvalid, _⟩ := checkCommit_ok hcheck
      have hmarks : (enqueueIntent slot lease.source (c.generateId s.generated)).marks =
          slot.marks := by
        unfold enqueueIntent
        split <;> exact marks_modifyQueue _ _ _
      exact ⟨slots_rewrite hslot rfl (removed_of_marks hmarks) (constraint_of_marks hmarks).trans,
        intents_insert _ rfl ⟨rfl, slot, hslot, (removed_of_validate hvalid).1⟩⟩

theorem persists_abortEnqueue (lease : EnqueueLease) :
    Persists s (c.abortEnqueue s lease).state reopens enters := by
  unfold abortEnqueue
  split
  · exact persists_refl
  · split
    · exact persists_refl
    · exact ⟨slots_same rfl, intents_same rfl⟩

theorem slots_modify_marks {s' : CoordinatorState} {slotId : String} {f : SlotState → SlotState}
    (h : s'.slots = s.slots.modify slotId f) (hmarks : ∀ slot, (f slot).marks = slot.marks) :
    SlotsPersist s s' reopens :=
  slots_modify h (fun slot hr ↦ (removed_of_marks (hmarks slot)).trans hr)
    fun slot ↦ constraint_of_marks (hmarks slot)

theorem persists_recoverAll (enters : String → Prop) (slotId : String) (role : TeamRunTargetRole) (now : ℤ)
    (created unread : List String) (henters : unread ≠ [] → enters slotId) :
    SlotsPersist s (unread.foldl (c.recoverMessage slotId role now) (s, created)).1 (fun _ ↦ False) ∧
      IntentsPersist s (unread.foldl (c.recoverMessage slotId role now) (s, created)).1 enters := by
  induction unread generalizing s created with
  | nil => exact ⟨slots_same rfl, intents_same rfl⟩
  | cons messageId unread ih =>
      have hslot : enters slotId := henters (List.cons_ne_nil _ _)
      rw [List.foldl_cons]
      by_cases howned : s.alreadyOwned slotId messageId = true
      · rw [show c.recoverMessage slotId role now (s, created) messageId = (s, created) from
          if_pos howned]
        exact ih created fun _ ↦ hslot
      · rw [show c.recoverMessage slotId role now (s, created) messageId =
            (c.createRecovery s slotId messageId role now,
              created ++ [c.generateId s.generated]) from if_neg howned]
        obtain ⟨hslots, hintents⟩ := ih (s := c.createRecovery s slotId messageId role now)
          (created ++ [c.generateId s.generated]) fun _ ↦ hslot
        have hcreate : SlotsPersist s (c.createRecovery s slotId messageId role now)
            fun _ ↦ False :=
          slots_modify_marks
            (f := fun slot ↦ slot.pushBack .background (c.generateId s.generated)) rfl
            fun slot ↦ marks_modifyQueue slot _ _
        have hinsert : IntentsPersist s (c.createRecovery s slotId messageId role now) enters :=
          intents_insert (c.recoveryIntent (c.generateId s.generated) slotId messageId role now)
            rfl hslot
        exact ⟨hcreate.trans hslots, hinsert.trans hintents⟩

theorem persists_reconcileMailboxSnapshot (slotId : String) (unread : List String)
    (role : TeamRunTargetRole) (staleCandidates : List String) (now : ℤ) :
    Persists s (c.reconcileMailboxSnapshot s slotId unread role staleCandidates now).state
      (fun id ↦ id = slotId ∧ s.slots.lookup id = none) (fun id ↦ id = slotId ∧ unread ≠ []) := by
  let clear := clearStale s slotId unread role staleCandidates
  have hmarks : ((reconciledSlot s slotId unread role).removeAllQueued
      (staleIntents s slotId unread staleCandidates)).marks =
        (s.slotOrNew slotId role).marks := marks_removeAllQueued _ _
  have hclear : SlotsPersist s clear fun id ↦ id = slotId ∧ s.slots.lookup id = none :=
    slots_slotOrNew role rfl (removed_of_marks hmarks) (constraint_of_marks hmarks).trans
      fun hnone ↦ ⟨rfl, hnone⟩
  have hrestated : IntentsPersist s clear fun id ↦ id = slotId ∧ unread ≠ [] :=
    intents_setStates (staleIntents s slotId unread staleCandidates) .completed rfl
  obtain ⟨hslots, hintents⟩ := persists_recoverAll (c := c) (s := clear)
    (fun id ↦ id = slotId ∧ unread ≠ []) slotId role now [] unread fun hne ↦ ⟨rfl, hne⟩
  exact ⟨hclear.trans hslots, hrestated.trans hintents⟩

theorem persists_next (slotId : String) : Persists s (c.next s slotId).state reopens enters := by
  rcases next_cases (c := c) (s := s) slotId with
    ⟨hsame, _⟩ | ⟨slot, p, ids, hslot, _, _, _, _, hstate⟩
  · rw [hsame]
    exact persists_refl
  · rw [hstate]
    have hmarks := marks_removeAllQueued slot ids
    exact ⟨slots_rewrite hslot rfl (removed_of_marks hmarks) (constraint_of_marks hmarks).trans,
      intents_setStates ids (.starting _ _) rfl⟩

theorem persists_observeMessages (slotId batchId : String) (messageIds : List String) :
    Persists s (observeMessages s slotId batchId messageIds).state reopens enters := by
  unfold observeMessages
  split
  · exact persists_refl
  · split
    · exact persists_refl
    · exact ⟨slots_modify_marks (f := fun slot ↦ slot.observe messageIds) rfl fun _ ↦ rfl,
        intents_same rfl⟩

theorem persists_markStarted (batch : WorkBatch) (turnId : String) (now : ℤ) :
    Persists s (c.markStarted s batch turnId now).state reopens enters := by
  unfold markStarted
  split
  · exact ⟨slots_modify_marks (f := fun slot ↦ slot.start turnId now) rfl fun _ ↦ rfl,
      intents_setStates _ _ rfl⟩
  · split <;> exact persists_refl

theorem persists_retryStart (batch : WorkBatch) :
    Persists s (c.retryStart s batch).state reopens enters := by
  unfold retryStart
  split
  · exact ⟨slots_modify_marks (f := fun slot ↦ slot.giveBack batch) rfl
      fun slot ↦ marks_pushFrontAll { slot with active := none } _ _, intents_setStates _ _ rfl⟩
  · exact persists_refl

theorem persists_completeBatchWithAck (batch : WorkBatch) :
    Persists s (c.completeBatchWithAck s batch).state reopens enters := by
  unfold completeBatchWithAck
  split
  · exact persists_refl
  · split
    · exact persists_refl
    · exact ⟨slots_modify_marks (f := fun slot ↦ slot.finish _ _) rfl
        fun slot ↦ marks_removeAllQueued slot _, intents_setStates _ _ rfl⟩

theorem persists_terminalizeBatch (batch : WorkBatch) (terminal : WorkIntentState)
    (delivery : DeliveryOutcome) :
    Persists s (c.terminalizeBatch s batch terminal delivery).state reopens enters := by
  unfold terminalizeBatch
  split
  · exact persists_refl
  · next slot hslot =>
      split
      · exact persists_refl
      · have hmarks := marks_releaseSlot slot batch delivery
        exact ⟨slots_rewrite hslot rfl (removed_of_marks hmarks)
          (constraint_of_marks hmarks).trans, intents_setStates _ _ rfl⟩

theorem persists_interruptBatch (batch : WorkBatch) (reason : Option String) (messageId : String) :
    Persists s (c.interruptBatch s batch reason messageId).state reopens enters := by
  unfold interruptBatch
  split
  · exact ⟨slots_modify_marks (f := fun slot ↦ slot.interrupt batch.mailboxMessageIds) rfl
      fun _ ↦ rfl, intents_setStates _ _ rfl⟩
  · exact persists_refl

theorem persists_removeQueued {s' : CoordinatorState} {slotId : String} (ids : List String)
    (state : WorkIntentState)
    (hslots : s'.slots = s.slots.modify slotId fun slot ↦ slot.removeAllQueued ids)
    (hintents : s'.intents = (s.setStates ids state).intents) : Persists s s' reopens enters :=
  ⟨slots_modify_marks hslots fun slot ↦ marks_removeAllQueued slot ids,
    intents_setStates ids state hintents⟩

theorem persists_cancelRun (teamRunId : String) :
    Persists s (cancelRun s teamRunId).state (fun _ ↦ False) enters := by
  have hactives : ∀ (entries : List (String × ActiveBatch)) (s : CoordinatorState),
      Persists s (entries.foldl (cancelActive teamRunId) s) (fun _ ↦ False) enters := by
    intro entries
    induction entries with
    | nil => exact fun _ ↦ persists_refl
    | cons e entries ih =>
        intro s
        have htail := ih (cancelActive teamRunId s e)
        have hhead : SlotsPersist s (cancelActive teamRunId s e) fun _ ↦ False :=
          slots_modify_marks (f := fun slot ↦ List.foldl (requeueFront _) { slot with active := none } _)
            rfl fun slot ↦ marks_requeueFrontAll { slot with active := none } _ _
        exact ⟨hhead.trans htail.slots,
          (intents_restated (intents_cancelActive e.2)).trans htail.intents⟩
  have hqueued : ∀ (queued : List WorkIntent) (s : CoordinatorState),
      Persists s (queued.foldl cancelQueued s) (fun _ ↦ False) enters := by
    intro queued
    induction queued with
    | nil => exact fun _ ↦ persists_refl
    | cons intent queued ih =>
        intro s
        have htail := ih (cancelQueued s intent)
        have hhead : Persists s (cancelQueued s intent) (fun _ ↦ False) enters :=
          persists_removeQueued [intent.intentId] (.cancelled "run_cancelled") rfl rfl
        exact ⟨hhead.slots.trans htail.slots, hhead.intents.trans htail.intents⟩
  have hbatches := hactives (batchesOfRun s teamRunId) s
  have hrest := hqueued (((((batchesOfRun s teamRunId).foldl
    (cancelActive teamRunId) s).runIntents teamRunId).filter fun intent ↦ intent.state = .queued))
      ((batchesOfRun s teamRunId).foldl (cancelActive teamRunId) s)
  have hleases : ∀ (s : CoordinatorState) (leases : Table String EnqueueLeaseRecord),
      Persists s { s with enqueueLeases := leases } (fun _ ↦ False) enters :=
    fun _ _ ↦ ⟨slots_same rfl, intents_same rfl⟩
  exact ⟨(hbatches.slots.trans hrest.slots).trans (hleases _ _).slots,
    (hbatches.intents.trans hrest.intents).trans (hleases _ _).intents⟩

theorem persists_completeSignals (slotId : String) (intentIds : List String) :
    Persists s (completeSignals s slotId intentIds).state reopens enters := by
  unfold completeSignals
  split
  · exact persists_removeQueued intentIds .completed rfl rfl
  · exact persists_refl

theorem persists_setSlot {s' : CoordinatorState} {slotId : String} {slot' : SlotState}
    (hslots : s'.slots = s.slots.insert slotId slot')
    (hmarks : slot'.marks = (s.slotOrNew slotId .teammate).marks) (hintents : s'.intents = s.intents) :
    Persists s s' (fun id ↦ id = slotId ∧ s.slots.lookup id = none) enters :=
  ⟨slots_slotOrNew .teammate hslots (removed_of_marks hmarks) (constraint_of_marks hmarks).trans
    fun hnone ↦ ⟨rfl, hnone⟩, intents_same hintents⟩

theorem persists_setRuntimeConstraint (slotId : String) (constraint : RuntimeConstraint) :
    Persists s (setRuntimeConstraint s slotId constraint).state
      (fun id ↦ id = slotId ∧ constraint ≠ .sessionStopped) enters := by
  have hremoved : ∀ slot, s.slots.lookup slotId = some slot →
      (s.slotOrNew slotId .teammate).removed = slot.removed := by
    intro slot hslot
    simp [CoordinatorState.slotOrNew, hslot]
  have hset : ∀ slot' : SlotState, slot'.runtimeConstraint = constraint →
      (∃ slot, s.slots.lookup slotId = some slot ∧ (slot.isStopped → slot'.isStopped)) ∨
        (slotId = slotId ∧ constraint ≠ .sessionStopped) ∨ slot'.isStopped := by
    intro slot' hslot'
    by_cases hstopped : constraint = .sessionStopped
    · exact Or.inr (Or.inr (hslot'.trans hstopped))
    · exact Or.inr (Or.inl ⟨rfl, hstopped⟩)
  unfold setRuntimeConstraint
  split
  · have hmarks := marks_requeueAll
      { (s.slotOrNew slotId .teammate).clearQueues with
        runtimeConstraint := constraint
        active := none }
      ((s.liveIntents slotId).filter fun intent ↦ constrainedState constraint intent = .queued)
    refine ⟨slots_insert rfl (fun slot hslot hr ↦ ?_) (hset _ (constraint_of_marks hmarks)),
      intents_restated (f := fun _ intent ↦ endedState slotId constraint intent) rfl⟩
    exact (removed_of_marks hmarks).trans ((hremoved slot hslot).trans hr)
  · refine ⟨slots_insert rfl (fun slot hslot hr ↦ ?_) (hset _ rfl), intents_same rfl⟩
    exact (hremoved slot hslot).trans hr

theorem persists_beginRuntimeRestart (slotId : String) (allowQueued : Bool) :
    Persists s (beginRuntimeRestart s slotId allowQueued).state
      (fun id ↦ id = slotId ∧ s.slots.lookup id = none) enters := by
  have hkept : Persists s (s.setSlot slotId (s.slotOrNew slotId .teammate))
      (fun id ↦ id = slotId ∧ s.slots.lookup id = none) enters := persists_setSlot rfl rfl rfl
  unfold beginRuntimeRestart
  simp only
  split
  · exact hkept
  · split
    · exact hkept
    · exact hkept
    · next hne =>
        refine ⟨hkept.slots.trans (slots_rewrite (AList.lookup_insert s.slots) rfl rfl
          fun hstopped ↦ ?_), intents_same rfl⟩
        exact absurd hstopped hne

theorem persists_abortRuntimeRestart (slotId : String) (gate : RuntimeRestartGate) :
    Persists s (abortRuntimeRestart s slotId gate).state reopens enters := by
  unfold abortRuntimeRestart
  split
  · exact persists_refl
  · next slot hslot =>
      split
      · exact persists_refl
      · next hstarting =>
          refine ⟨slots_rewrite hslot rfl rfl fun hstopped ↦ ?_, intents_same rfl⟩
          have heq := (not_not.mp hstarting).symm.trans hstopped
          cases heq

theorem persists_requestMcpRefresh (slotId fingerprint : String) :
    Persists s (requestMcpRefresh s slotId fingerprint).state
      (fun id ↦ id = slotId ∧ s.slots.lookup id = none) enters := by
  unfold requestMcpRefresh
  simp only
  split
  · exact persists_setSlot rfl rfl rfl
  · split <;> exact persists_setSlot rfl rfl rfl

theorem persists_deferMcpRefresh (slotId fingerprint : String) :
    Persists s (deferMcpRefresh s slotId fingerprint).state
      (fun id ↦ id = slotId ∧ s.slots.lookup id = none) enters := by
  unfold deferMcpRefresh
  simp only
  split <;> exact persists_setSlot rfl rfl rfl

theorem persists_claimPendingMcpRefresh (slotId : String) :
    Persists s (claimPendingMcpRefresh s slotId).state reopens enters := by
  unfold claimPendingMcpRefresh
  split
  · exact persists_refl
  · next slot hslot =>
      split
      · exact persists_refl
      · split
        · exact persists_refl
        · exact ⟨slots_rewrite hslot rfl rfl id, intents_same rfl⟩

theorem persists_modifyRefresh {s' : CoordinatorState} {slotId : String} {f : SlotState → SlotState}
    (hslots : s'.slots = s.slots.modify slotId f) (hmarks : ∀ slot, (f slot).marks = slot.marks)
    (hintents : s'.intents = s.intents) : Persists s s' reopens enters :=
  ⟨slots_modify_marks hslots hmarks, intents_same hintents⟩

theorem persists_removeSlot (slotId : String) :
    Persists s (removeSlot s slotId).state reopens enters :=
  ⟨slots_modify (f := SlotState.remove) rfl (fun _ _ ↦ rfl) fun _ ↦ rfl,
    intents_setStates (removedIntentIds s slotId) (.cancelled "slot_removed") rfl⟩

theorem persists_stop : Persists s (stop s).state reopens enters := by
  have hslots : ∀ slotId, (stop s).state.slots.lookup slotId =
      (s.slots.lookup slotId).map SlotState.stop := fun slotId ↦ Table.lookup_mapValues _
  refine ⟨⟨fun slotId slot hslot ↦ ?_, fun slotId slot' hslot ↦ ?_⟩, intents_restated
    (f := fun _ intent ↦
      if intent.state.isTerminal then intent.state else .cancelled "session_stopped") rfl⟩
  · exact ⟨slot.stop, by rw [hslots, hslot]; rfl, fun hr ↦ hr⟩
  · rw [hslots] at hslot
    obtain ⟨slot, _, rfl⟩ := Option.map_eq_some_iff.mp hslot
    exact Or.inr (Or.inr rfl)

theorem persists_step (op : CoordinatorOp) :
    Persists s (c.step s op) (Reopens s op) (Enters s op) := by
  cases op with
  | acquireEnqueue answers request => exact persists_acquireEnqueue answers request
  | commitEnqueue lease messageId now => exact persists_commitEnqueue lease messageId now
  | abortEnqueue lease => exact persists_abortEnqueue lease
  | reconcileMailboxSnapshot slotId unread role staleCandidates now =>
      exact persists_reconcileMailboxSnapshot slotId unread role staleCandidates now
  | next slotId => exact persists_next slotId
  | observeMessages slotId batchId messageIds =>
      exact persists_observeMessages slotId batchId messageIds
  | markStarted batch turnId now => exact persists_markStarted batch turnId now
  | retryStart batch => exact persists_retryStart batch
  | completeBatchWithAck batch => exact persists_completeBatchWithAck batch
  | failBatch batch classification => exact persists_terminalizeBatch batch _ .failed
  | cancelBatch batch classification => exact persists_terminalizeBatch batch _ .notFailed
  | interruptBatch batch reason messageId => exact persists_interruptBatch batch reason messageId
  | takeInterruptMetadata batchId => exact ⟨slots_same rfl, intents_same rfl⟩
  | discardQueuedExcept slotId messageId => exact persists_removeQueued _ _ rfl rfl
  | cancelRun teamRunId => exact persists_cancelRun teamRunId
  | completeSignals slotId intentIds => exact persists_completeSignals slotId intentIds
  | pauseSlot slotId => exact persists_setSlot rfl rfl rfl
  | setRuntimeConstraint slotId constraint => exact persists_setRuntimeConstraint slotId constraint
  | beginRuntimeRestart slotId allowQueued => exact persists_beginRuntimeRestart slotId allowQueued
  | abortRuntimeRestart slotId gate => exact persists_abortRuntimeRestart slotId gate
  | requestMcpRefresh slotId fingerprint => exact persists_requestMcpRefresh slotId fingerprint
  | deferMcpRefresh slotId fingerprint => exact persists_deferMcpRefresh slotId fingerprint
  | claimPendingMcpRefresh slotId => exact persists_claimPendingMcpRefresh slotId
  | completeMcpRefresh slotId fingerprint =>
      exact persists_modifyRefresh (f := fun slot ↦ slot.completeRefresh fingerprint) rfl
        (fun _ ↦ rfl) rfl
  | releaseMcpRefresh slotId fingerprint =>
      refine persists_modifyRefresh (f := fun slot ↦ slot.releaseRefresh fingerprint) rfl
        (fun slot ↦ ?_) rfl
      unfold SlotState.releaseRefresh
      split <;> rfl
  | settleMcpRefreshClaim slotId fingerprint =>
      refine persists_modifyRefresh (f := fun slot ↦ slot.settleRefresh fingerprint) rfl
        (fun slot ↦ ?_) rfl
      unfold SlotState.settleRefresh
      split <;> rfl
  | removeSlot slotId => exact persists_removeSlot slotId
  | stop => exact persists_stop
  | rehash rank =>
      refine ⟨slots_same rfl, fun id intent hi ↦ Or.inl ⟨intent, ?_, rfl⟩⟩
      exact (Table.lookup_reorder rank).symm.trans hi

end Operations

end Zaowutai.Team
