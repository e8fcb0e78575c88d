import Mathlib.Algebra.Group.Nat.Defs
import Zaowutai.Team.Acknowledgement
import Zaowutai.Team.SlotPersistence

/-!
# The registry of member runtimes

Every member of a team session has at most one runtime operation in progress,
an attach or a removal.  The outcome of an operation travels over a watch
channel of its own: a channel is its position in the list of all channels, and
`channels` holds the value last sent on each.
-/

namespace Zaowutai.Team

open Zaowutai.Lib

structure MemberRuntimeFailure where
  classification : String
  publicReason : String
  deriving DecidableEq, Repr

inductive AttachOutcome
  | ready
  | failed (failure : MemberRuntimeFailure)
  | removed
  | sessionStopped
  deriving DecidableEq, Repr

inductive AttachSignal
  | pending
  | terminal (outcome : AttachOutcome)
  deriving DecidableEq, Repr

structure AttachWaiter where
  operationId : ℕ
  channel : ℕ
  deriving DecidableEq, Repr

structure AttachLease where
  sessionGeneration : String
  agentId : String
  waiter : AttachWaiter
  deriving DecidableEq, Repr

def AttachLease.operationId (lease : AttachLease) : ℕ := lease.waiter.operationId

structure RemoveLease where
  sessionGeneration : String
  agentId : String
  operationId : ℕ
  deriving DecidableEq, Repr

inductive ReserveAttach
  | start (lease : AttachLease)
  | join (waiter : AttachWaiter)
  | alreadyReady
  | removing (waiter : AttachWaiter)
  | sessionStopped
  deriving DecidableEq, Repr

inductive BeginRemove
  | start (lease : RemoveLease)
  | join (waiter : AttachWaiter)
  | absent
  | sessionStopped
  deriving DecidableEq, Repr

inductive MemberRuntimeEntry
  | attaching (operationId channel : ℕ)
  | ready
  | failed (operationId : ℕ) (failure : MemberRuntimeFailure) (channel : ℕ)
  | removing (operationId channel : ℕ)
  deriving DecidableEq, Repr

structure MemberRuntimeRegistry where
  sessionGeneration : String
  nextOperationId : ℕ
  entries : Table String MemberRuntimeEntry
  stopped : Bool
  channels : List AttachSignal

namespace MemberRuntimeRegistry

def new (sessionGeneration : String) : MemberRuntimeRegistry where
  sessionGeneration := sessionGeneration
  nextOperationId := 1
  entries := ∅
  stopped := false
  channels := []

variable (r : MemberRuntimeRegistry)

/-- `fetch_add(1)` on the `AtomicU64`, which wraps around. -/
def bumpOperationId : ℕ := (r.nextOperationId + 1) % 2 ^ 64

def openOperation (agentId : String) (entry : ℕ → ℕ → MemberRuntimeEntry) :
    MemberRuntimeRegistry :=
  { r with
    nextOperationId := r.bumpOperationId
    entries := r.entries.insert agentId (entry r.nextOperationId r.channels.length)
    channels := r.channels ++ [.pending] }

def send (channel : ℕ) (outcome : AttachOutcome) : MemberRuntimeRegistry :=
  { r with channels := r.channels.set channel (.terminal outcome) }

def setEntry (agentId : String) (entry : MemberRuntimeEntry) : MemberRuntimeRegistry :=
  { r with entries := r.entries.insert agentId entry }

def startAttach (agentId : String) : MemberRuntimeRegistry × ReserveAttach :=
  (r.openOperation agentId .attaching,
    .start ⟨r.sessionGeneration, agentId, ⟨r.nextOperationId, r.channels.length⟩⟩)

def reserveAttach (agentId : String) (retryFailed : Bool) : MemberRuntimeRegistry × ReserveAttach :=
  if r.stopped then (r, .sessionStopped)
  else match r.entries.lookup agentId with
    | some (.attaching operationId channel) => (r, .join ⟨operationId, channel⟩)
    | some .ready => (r, .alreadyReady)
    | some (.failed operationId _ channel) =>
        if retryFailed then r.startAttach agentId else (r, .join ⟨operationId, channel⟩)
    | some (.removing operationId channel) => (r, .removing ⟨operationId, channel⟩)
    | none => r.startAttach agentId

def reserveRestart (agentId : String) : MemberRuntimeRegistry × ReserveAttach :=
  if r.stopped then (r, .sessionStopped)
  else match r.entries.lookup agentId with
    | some (.attaching operationId channel) => (r, .join ⟨operationId, channel⟩)
    | some (.removing operationId channel) => (r, .removing ⟨operationId, channel⟩)
    | some .ready | some (.failed _ _ _) | none => r.startAttach agentId

def reserveRepair (agentId : String) : MemberRuntimeRegistry × ReserveAttach :=
  if r.stopped then (r, .sessionStopped)
  else match r.entries.lookup agentId with
    | some (.attaching operationId channel) => (r, .join ⟨operationId, channel⟩)
    | some .ready => r.startAttach agentId
    | some (.failed operationId _ channel) => (r, .join ⟨operationId, channel⟩)
    | some (.removing operationId channel) => (r, .removing ⟨operationId, channel⟩)
    | none => r.startAttach agentId

def ownsAttach (lease : AttachLease) : Bool :=
  if lease.sessionGeneration ≠ r.sessionGeneration ∨ r.stopped = true then false
  else match r.entries.lookup lease.agentId with
    | some (.attaching operationId _) => operationId == lease.operationId
    | _ => false

def commitAttach (lease : AttachLease) (entry : ℕ → MemberRuntimeEntry) (outcome : AttachOutcome) :
    MemberRuntimeRegistry × Bool :=
  if lease.sessionGeneration ≠ r.sessionGeneration then (r, false)
  else if r.stopped then (r, false)
  else match r.entries.lookup lease.agentId with
    | some (.attaching operationId channel) =>
        if operationId ≠ lease.operationId then (r, false)
        else ((r.setEntry lease.agentId (entry channel)).send channel outcome, true)
    | _ => (r, false)

def commitReady (lease : AttachLease) : MemberRuntimeRegistry × Bool :=
  r.commitAttach lease (fun _ ↦ .ready) .ready

def commitFailed (lease : AttachLease) (failure : MemberRuntimeFailure) :
    MemberRuntimeRegistry × Bool :=
  r.commitAttach lease (.failed lease.operationId failure) (.failed failure)

def beginRemove (agentId : String) : MemberRuntimeRegistry × BeginRemove :=
  let lease := BeginRemove.start ⟨r.sessionGeneration, agentId, r.nextOperationId⟩
  if r.stopped then (r, .sessionStopped)
  else match r.entries.lookup agentId with
    | some (.removing operationId channel) => (r, .join ⟨operationId, channel⟩)
    | some (.attaching _ channel) => ((r.openOperation agentId .removing).send channel .removed, lease)
    | some (.failed _ _ _) | some .ready => (r.openOperation agentId .removing, lease)
    | none => (r, .absent)

def commitRemove (lease : RemoveLease) (after : ℕ → Option MemberRuntimeEntry)
    (outcome : AttachOutcome) : MemberRuntimeRegistry × Bool :=
  if lease.sessionGeneration ≠ r.sessionGeneration then (r, false)
  else if r.stopped then (r, false)
  else match r.entries.lookup lease.agentId with
    | some (.removing operationId channel) =>
        if operationId ≠ lease.operationId then (r, false)
        else match after channel with
          | some entry => ((r.setEntry lease.agentId entry).send channel outcome, true)
          | none =>
              (({ r with entries := r.entries.erase lease.agentId }).send channel outcome, true)
    | _ => (r, false)

def finishRemove (lease : RemoveLease) : MemberRuntimeRegistry × Bool :=
  r.commitRemove lease (fun _ ↦ none) .removed

def restoreAttachRequiredAfterRemovePersistError (lease : RemoveLease)
    (failure : MemberRuntimeFailure) : MemberRuntimeRegistry × Bool :=
  r.commitRemove lease (fun channel ↦ some (.failed lease.operationId failure channel))
    (.failed failure)

def drain (r : MemberRuntimeRegistry) : MemberRuntimeEntry → MemberRuntimeRegistry
  | .attaching _ channel | .removing _ channel => r.send channel .sessionStopped
  | .ready | .failed _ _ _ => r

def stop : MemberRuntimeRegistry × Bool :=
  if r.stopped then (r, false)
  else ({ r.entries.values.foldl drain r with entries := ∅, stopped := true }, true)

end MemberRuntimeRegistry

/-!
## The owner of a mailbox message

At most one intent of a slot that is not terminal carries a given message.  A
reconciliation looks for the owner of a row before it creates one, a commit does
not; every other operation creates no intent at all.
-/

open SlotWorkCoordinator

def Carries (s : CoordinatorState) (slotId m id : String) : Prop :=
  ∃ intent, s.intents.lookup id = some intent ∧ intent.slotId = slotId ∧
    intent.state.isTerminal = false ∧ intent.mailboxMessageId = some m

def SoleOwner (s : CoordinatorState) (slotId : String) : Prop :=
  ∀ m id id', Carries s slotId m id → Carries s slotId m id' → id = id'

section Sole

variable {c : SlotWorkCoordinator} {s s' : CoordinatorState} {slotId : String}

theorem alreadyOwned_iff {m : String} :
    s.alreadyOwned slotId m = true ↔ ∃ id, Carries s slotId m id := by
  simp only [CoordinatorState.alreadyOwned, List.any_eq_true, Table.mem_values_iff,
    Bool.and_eq_true, beq_iff_eq, Bool.not_eq_true']
  constructor
  · rintro ⟨intent, ⟨id, hi⟩, ⟨hslot, hm⟩, hlive⟩
    exact ⟨id, intent, hi, hslot, hlive, hm⟩
  · rintro ⟨id, intent, hi, hslot, hlive, hm⟩
    exact ⟨intent, ⟨id, hi⟩, ⟨hslot, hm⟩, hlive⟩

theorem WellFormed.keyed (h : WellFormed c s) : Keyed c s := ⟨h.keys, h.drawn⟩

theorem kept_step (h : Keyed c s) (op : CoordinatorOp) : IntentsKept c s (c.step s op) := by
  by_cases hnext : ∃ slotId, op = .next slotId
  · obtain ⟨slotId, rfl⟩ := hnext
    rcases next_cases (c := c) (s := s) slotId with
      ⟨hsame, _⟩ | ⟨slot, p, ids, _, _, _, _, _, hstate⟩
    · have hstep : c.step s (.next slotId) = s := hsame
      rw [hstep]
      exact (calm_refl (c := c)).intents h
    · have hstep : c.step s (.next slotId) = _ := hstate
      rw [hstep]
      exact kept_claimed _ _
  · by_cases hobserve : ∃ slotId batchId messageIds, op = .observeMessages slotId batchId messageIds
    · obtain ⟨slotId, batchId, messageIds, rfl⟩ := hobserve
      have hlookup : ∀ id, (c.step s (.observeMessages slotId batchId messageIds)).intents.lookup id =
          s.intents.lookup id := by
        intro id
        change (observeMessages s slotId batchId messageIds).state.intents.lookup id = _
        rcases observe_cases s slotId batchId messageIds with ⟨hsame, _⟩ | ⟨_, _, _, hstate⟩
        · rw [hsame]
        · rw [hstate]
          rfl
      refine kept_lookup hlookup ?_
      change _ ≤ (observeMessages s slotId batchId messageIds).state.generated
      rcases observe_cases s slotId batchId messageIds with ⟨hsame, _⟩ | ⟨_, _, _, hstate⟩
      · rw [hsame]
      · rw [hstate]
        exact le_rfl
    · exact (calm_step (fun slotId heq ↦ hnext ⟨slotId, heq⟩)
        fun slotId batchId messageIds heq ↦ hobserve ⟨slotId, batchId, messageIds, heq⟩).intents h

theorem carries_back (hadvances : Advances c s s') (hkept : IntentsKept c s s') {m id : String}
    (h : Carries s' slotId m id) (hold : (s.intents.lookup id).isSome) : Carries s slotId m id := by
  obtain ⟨intent, hi, hslot, hlive, hm⟩ := h
  obtain ⟨old, hlookup⟩ := Option.isSome_iff_exists.mp hold
  obtain ⟨state, hstate⟩ := hkept.old id old hlookup
  obtain rfl := Option.some.inj (hi.symm.trans hstate)
  refine ⟨old, hlookup, hslot, ?_, hm⟩
  cases hterminal : old.state.isTerminal with
  | false => rfl
  | true =>
      have hsame := (hadvances.terminal id old hlookup hterminal).symm.trans hstate
      have hstate' : old.state = state := congrArg WorkIntent.state (Option.some.inj hsame)
      rw [← hstate', hterminal] at hlive
      cases hlive

theorem sole_of_persists (hsole : SoleOwner s slotId) (hadvances : Advances c s s')
    (hkept : IntentsKept c s s') (hpersist : IntentsPersist s s' fun _ ↦ False) :
    SoleOwner s' slotId := by
  have hold : ∀ {m id}, Carries s' slotId m id → Carries s slotId m id := by
    intro m id h
    have hfound := h
    obtain ⟨intent, hi, _⟩ := hfound
    rcases hpersist id intent hi with ⟨old, hlookup, _⟩ | hfalse
    · exact carries_back hadvances hkept h (by rw [hlookup]; rfl)
    · exact hfalse.elim
  exact fun m id id' h h' ↦ hsole m id id' (hold h) (hold h')

theorem carries_insert (hkeyed : Keyed c s) {intent : WorkIntent}
    (hid : intent.intentId = c.generateId s.generated) (hstate : intent.state = .queued)
    (hintents : s'.intents = s.intents.insert intent.intentId intent) {m id : String} :
    Carries s' slotId m id ↔ Carries s slotId m id ∨
      id = intent.intentId ∧ intent.slotId = slotId ∧ intent.mailboxMessageId = some m := by
  have hfresh : s.intents.lookup intent.intentId = none := hid ▸ hkeyed.lookup_generated le_rfl
  constructor
  · rintro ⟨other, hi, hslot, hlive, hm⟩
    rw [hintents, Table.lookup_insert_eq] at hi
    split at hi
    · next heq =>
        obtain rfl := Option.some.inj hi
        exact Or.inr ⟨heq, hslot, hm⟩
    · exact Or.inl ⟨other, hi, hslot, hlive, hm⟩
  · rintro (⟨other, hi, hslot, hlive, hm⟩ | ⟨rfl, hslot, hm⟩)
    · have hne : id ≠ intent.intentId := by
        rintro rfl
        rw [hfresh] at hi
        cases hi
      exact ⟨other, by rw [hintents, AList.lookup_insert_ne hne, hi], hslot, hlive, hm⟩
    · exact ⟨intent, by rw [hintents, AList.lookup_insert], hslot, by rw [hstate]; rfl, hm⟩

theorem sole_insert (hkeyed : Keyed c s) (hsole : SoleOwner s slotId) (intent : WorkIntent)
    (hid : intent.intentId = c.generateId s.generated) (hstate : intent.state = .queued)
    (hslot : intent.slotId = slotId)
    (hintents : s'.intents = s.intents.insert intent.intentId intent) :
    SoleOwner s' slotId ↔
      ∀ m, intent.mailboxMessageId = some m → s.alreadyOwned slotId m = false := by
  have hcarries := @carries_insert c s s' slotId hkeyed intent hid hstate hintents
  have hfresh : ∀ m, ¬ Carries s slotId m intent.intentId := by
    rintro m ⟨other, hi, _⟩
    rw [hid, hkeyed.lookup_generated le_rfl] at hi
    cases hi
  constructor
  · intro hsole' m hm
    refine Bool.eq_false_iff.mpr fun howned ↦ ?_
    obtain ⟨id, hid'⟩ := alreadyOwned_iff.mp howned
    have heq := hsole' m id intent.intentId (hcarries.mpr (Or.inl hid'))
      (hcarries.mpr (Or.inr ⟨rfl, hslot, hm⟩))
    exact hfresh m (heq ▸ hid')
  · intro hfree m id id' h h'
    have hnone : intent.mailboxMessageId = some m → ∀ id, ¬ Carries s slotId m id := by
      intro hm id hid'
      have howned := alreadyOwned_iff.mpr ⟨id, hid'⟩
      rw [hfree m hm] at howned
      cases howned
    rcases hcarries.mp h with hold | ⟨rfl, _, hm⟩ <;> rcases hcarries.mp h' with hold' | ⟨rfl, _, hm'⟩
    · exact hsole m id id' hold hold'
    · exact absurd hold (hnone hm' id)
    · exact absurd hold' (hnone hm id')
    · rfl

theorem sole_recoverAll (h : WellFormed c s) (hsole : SoleOwner s slotId)
    (hslot : (s.slots.lookup slotId).isSome = true) (role : TeamRunTargetRole) (now : ℤ)
    (created unread : List String) :
    SoleOwner (unread.foldl (c.recoverMessage slotId role now) (s, created)).1 slotId := by
  induction unread generalizing s created with
  | nil => exact hsole
  | cons m unread ih =>
      obtain ⟨hstep, hslot'⟩ := advances_recoverMessage h hslot role now created m
      refine ih hstep.wellFormed ?_ hslot' _
      unfold recoverMessage
      split
      · exact hsole
      · next howned =>
          refine (sole_insert h.keyed hsole (c.recoveryIntent
            (c.generateId s.generated) slotId m role now) rfl rfl rfl rfl).mpr fun m' hm' ↦ ?_
          obtain rfl := Option.some.inj hm'
          exact eq_false_of_ne_true howned

theorem sole_reconcile (h : WellFormed c s) (hsole : SoleOwner s slotId) (unread : List String)
    (role : TeamRunTargetRole) (staleCandidates : List String) (now : ℤ) :
    SoleOwner (c.reconcileMailboxSnapshot s slotId unread role staleCandidates now).state slotId := by
  have hclear := advances_clearStale h slotId unread role staleCandidates
  refine sole_recoverAll hclear.wellFormed ?_ ?_ role now [] unread
  · refine sole_of_persists hsole hclear (kept_restated (f := fun id intent ↦
      if id ∈ staleIntents s slotId unread staleCandidates then .completed else intent.state)
      rfl le_rfl) (intents_setStates _ _ rfl)
  · simp [clearStale, CoordinatorState.setSlot]

theorem commit_cases (lease : EnqueueLease) (messageId : Option String) (now : ℤ) :
    ((∃ error, (c.commitEnqueue s lease messageId now).result = .error error) ∧
        (c.commitEnqueue s lease messageId now).state = s) ∨
      ((∃ commit, (c.commitEnqueue s lease messageId now).result = .ok commit) ∧
        (c.commitEnqueue s lease messageId now).state.intents = s.intents.insert
          (c.generateId s.generated)
          (c.committedIntent (c.generateId s.generated) lease messageId now)) := by
  unfold commitEnqueue
  split
  · exact Or.inl ⟨⟨_, rfl⟩, rfl⟩
  · exact Or.inr ⟨⟨_, rfl⟩, rfl⟩

theorem sole_commit (h : WellFormed c s) (hsole : SoleOwner s slotId) {lease : EnqueueLease}
    (hslot : lease.slotId = slotId) (m : String) (now : ℤ) :
    SoleOwner (c.commitEnqueue s lease (some m) now).state slotId ↔
      ((∃ commit, (c.commitEnqueue s lease (some m) now).result = .ok commit) →
        s.alreadyOwned slotId m = false) := by
  rcases commit_cases (c := c) (s := s) lease (some m) now with
    ⟨⟨error, herror⟩, hstate⟩ | ⟨⟨commit, hcommit⟩, hintents⟩
  · rw [hstate]
    refine iff_of_true hsole ?_
    rintro ⟨commit, hcommit⟩
    rw [herror] at hcommit
    cases hcommit
  · have hinsert := sole_insert h.keyed hsole (c.committedIntent
      (c.generateId s.generated) lease (some m) now) rfl rfl hslot hintents
    rw [hinsert]
    constructor
    · exact fun hfree _ ↦ hfree m rfl
    · intro hfree m' hm'
      obtain rfl := Option.some.inj hm'
      exact hfree ⟨commit, hcommit⟩

theorem sole_step (h : WellFormed c s) (hsole : SoleOwner s slotId) (op : CoordinatorOp)
    (hop : GenuineBatches c s op) (hcommit : ∀ lease messageId now,
      op ≠ .commitEnqueue lease messageId now)
    (hreconcile : ∀ id unread role stale now, op ≠ .reconcileMailboxSnapshot id unread role stale now) :
    SoleOwner (c.step s op) slotId := by
  refine sole_of_persists hsole (advances_step h hop) (kept_step h.keyed op) fun id intent hi ↦ ?_
  refine ((persists_step op).2 id intent hi).imp_right fun henters ↦ ?_
  cases op with
  | commitEnqueue lease messageId now => exact (hcommit lease messageId now rfl).elim
  | reconcileMailboxSnapshot id unread role stale now =>
      exact (hreconcile id unread role stale now rfl).elim
  | _ => exact henters

end Sole

end Zaowutai.Team
