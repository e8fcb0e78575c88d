import Zaowutai.Team.RetireSteps

/-!
# The invariant through the runtime operations

Pausing, restart gates and tool refreshes change no desk.  A runtime that
failed or stopped rebuilds the desk of its slot from the intents that are
queued again.
-/

namespace Zaowutai.Team

open Zaowutai.Lib SlotWorkCoordinator

variable {c : SlotWorkCoordinator} {s : CoordinatorState} {slotId : String}

section Constraint

variable {constraint : RuntimeConstraint}

theorem queue_requeueAll (intents : List WorkIntent) (slot : SlotState) (p : WorkPriority) :
    (intents.foldl (fun slot intent ↦ slot.pushBack intent.priority intent.intentId)
        slot).queue p =
      slot.queue p ++ (intents.filter fun intent ↦ intent.priority = p).map WorkIntent.intentId := by
  induction intents generalizing slot with
  | nil => simp
  | cons intent intents ih =>
      rw [List.foldl_cons, ih]
      by_cases hp : p = intent.priority
      · simp [SlotState.pushBack, hp]
      · simp [SlotState.pushBack, hp, Ne.symm hp]

theorem active_requeueAll (intents : List WorkIntent) (slot : SlotState) :
    (intents.foldl (fun slot intent ↦ slot.pushBack intent.priority intent.intentId)
        slot).active = slot.active := by
  induction intents generalizing slot with
  | nil => rfl
  | cons intent intents ih =>
      rw [List.foldl_cons, ih]
      simp [SlotState.pushBack]

def Requeued (slotId : String) (constraint : RuntimeConstraint) (p : WorkPriority)
    (intent : WorkIntent) : Prop :=
  (intent.slotId = slotId ∧ intent.state.isTerminal = false) ∧
    constrainedState constraint intent = .queued ∧ intent.priority = p

instance (slotId : String) (constraint : RuntimeConstraint) (p : WorkPriority) :
    DecidablePred (Requeued slotId constraint p) := fun _ ↦ by unfold Requeued; infer_instance

theorem desk_rebuiltSlot : (rebuiltSlot s slotId constraint).desk =
    ⟨fun p ↦ (s.intents.values.filter (Requeued slotId constraint p)).map WorkIntent.intentId,
      none⟩ := by
  simp only [SlotState.desk, rebuiltSlot, Desk.mk.injEq]
  refine ⟨funext fun p ↦ ?_, by rw [active_requeueAll]; rfl⟩
  have hclear : ∀ slot : SlotState, ({ slot.clearQueues with
      runtimeConstraint := constraint
      active := none } : SlotState).queue p = [] := fun slot ↦ SlotState.queue_clearQueues slot p
  rw [queue_requeueAll, hclear, List.nil_append, CoordinatorState.liveIntents, List.filter_filter,
    List.filter_filter]
  congr 1
  apply List.filter_congr
  intro intent _
  by_cases h1 : constrainedState constraint intent = .queued <;>
    by_cases h2 : intent.priority = p <;> simp [Requeued, h1, h2]

theorem claim_constrainedState (hends : constraint.endsWork = true) (intent : WorkIntent) :
    (constrainedState constraint intent).claim = none := by
  cases constraint with
  | failed operationId classification =>
      by_cases hrun : intent.teamRunId.isNone = true <;>
        simp [constrainedState, hrun, WorkIntentState.claim]
  | sessionStopped => rfl
  | _ => simp [RuntimeConstraint.endsWork] at hends

def endedState (slotId : String) (constraint : RuntimeConstraint) (intent : WorkIntent) :
    WorkIntentState :=
  if intent.slotId = slotId ∧ intent.state.isTerminal = false then
    constrainedState constraint intent
  else intent.state

theorem endedState_queued {intent : WorkIntent} (hs : intent.slotId = slotId) :
    endedState slotId constraint intent = .queued ↔
      intent.state.isTerminal = false ∧ constrainedState constraint intent = .queued := by
  unfold endedState
  cases ht : intent.state.isTerminal with
  | false => simp [hs]
  | true =>
      simp only [hs, Bool.true_eq_false, and_false, if_false, false_and, iff_false]
      intro hq
      simp [hq] at ht

theorem agrees_rebuiltSlot (h : WellFormed c s) (hends : constraint.endsWork = true) :
    DeskAgrees (restated s.intents fun _ intent ↦ endedState slotId constraint intent) slotId
      (rebuiltSlot s slotId constraint).desk := by
  have hnone : ∀ id intent, (restated s.intents fun _ intent ↦
      endedState slotId constraint intent).lookup id = some intent →
        ¬ ClaimedIn slotId intent := by
    rintro id intent hi ⟨hs, hc⟩
    obtain ⟨old, _, rfl⟩ := lookup_restated hi
    simp only [endedState] at hs hc
    cases ht : old.state.isTerminal with
    | false => simp [hs, ht, claim_constrainedState hends] at hc
    | true =>
        obtain ⟨claim, hclaim⟩ := Option.isSome_iff_exists.mp hc
        simp only [ht, Bool.true_eq_false, and_false, if_false] at hclaim
        simp [WorkIntentState.not_terminal_of_claim hclaim] at ht
  rw [desk_rebuiltSlot]
  refine ⟨fun p ↦ ?_, Indexes.nil hnone, fun batch hb ↦ by cases hb⟩
  refine (Indexes.values_map h.keys).mapValues fun id intent _ ↦ ?_
  constructor
  · rintro ⟨hs, hp, hq⟩
    have hs' : intent.slotId = slotId := hs
    obtain ⟨ht, hq⟩ := (endedState_queued hs').mp hq
    exact ⟨⟨hs, ht⟩, hq, hp⟩
  · rintro ⟨⟨hs, ht⟩, hq, hp⟩
    exact ⟨hs, hp, (endedState_queued hs).mpr ⟨ht, hq⟩⟩

theorem advances_setRuntimeConstraint (h : WellFormed c s) (slotId : String)
    (constraint : RuntimeConstraint) :
    Advances c s (setRuntimeConstraint s slotId constraint).state := by
  unfold setRuntimeConstraint
  split
  · next hends =>
      refine advances_restate_slot (f := fun _ intent ↦ endedState slotId constraint intent)
        h rfl (fun _ ↦ deskAt_insert rfl) ?_ ?_ (agrees_rebuiltSlot h hends) le_rfl
      · exact fun id intent _ ht ↦ if_neg fun hlive ↦ by simp [ht] at hlive
      · exact fun id intent _ hne ↦ if_neg fun hlive ↦ hne hlive.1
  · exact advances_setSlot h rfl (desk_slotOrNew _) rfl le_rfl

end Constraint

section Gates

theorem advances_pauseSlot (h : WellFormed c s) (slotId : String) :
    Advances c s (pauseSlot s slotId).state :=
  advances_setSlot h rfl (desk_slotOrNew .teammate) rfl le_rfl

theorem advances_beginRuntimeRestart (h : WellFormed c s) (slotId : String)
    (allowQueued : Bool) : Advances c s (beginRuntimeRestart s slotId allowQueued).state := by
  have hslot : Advances c s (s.setSlot slotId (s.slotOrNew slotId .teammate)) :=
    advances_setSlot h rfl (desk_slotOrNew _) rfl le_rfl
  unfold beginRuntimeRestart
  simp only
  split
  · exact hslot
  · split
    · exact hslot
    · exact hslot
    · refine hslot.trans (advances_setSlot hslot.wellFormed rfl ?_ rfl le_rfl)
      rw [deskAt_insert (s := s) rfl, if_pos rfl]
      rfl

theorem advances_abortRuntimeRestart (h : WellFormed c s) (slotId : String)
    (gate : RuntimeRestartGate) : Advances c s (abortRuntimeRestart s slotId gate).state := by
  unfold abortRuntimeRestart
  split
  · exact advances_refl h
  · next slot hslot =>
      split
      · exact advances_refl h
      · exact advances_setSlot h rfl (deskAt_of_lookup hslot).symm rfl le_rfl

theorem advances_requestMcpRefresh (h : WellFormed c s) (slotId fingerprint : String) :
    Advances c s (requestMcpRefresh s slotId fingerprint).state := by
  unfold requestMcpRefresh
  simp only
  split
  · exact advances_setSlot h rfl (desk_slotOrNew _) rfl le_rfl
  · split <;> exact advances_setSlot h rfl (desk_slotOrNew .teammate) rfl le_rfl

theorem advances_deferMcpRefresh (h : WellFormed c s) (slotId fingerprint : String) :
    Advances c s (deferMcpRefresh s slotId fingerprint).state := by
  unfold deferMcpRefresh
  simp only
  split <;> exact advances_setSlot h rfl (desk_slotOrNew .teammate) rfl le_rfl

theorem advances_claimPendingMcpRefresh (h : WellFormed c s) (slotId : String) :
    Advances c s (claimPendingMcpRefresh s slotId).state := by
  unfold claimPendingMcpRefresh
  split
  · exact advances_refl h
  · next slot hslot =>
      split
      · exact advances_refl h
      · split
        · exact advances_refl h
        · exact advances_setSlot h rfl (deskAt_of_lookup hslot).symm rfl le_rfl

theorem desk_releaseRefresh (slot : SlotState) (fingerprint : String) :
    (slot.releaseRefresh fingerprint).desk = slot.desk := by
  unfold SlotState.releaseRefresh
  split <;> rfl

theorem desk_settleRefresh (slot : SlotState) (fingerprint : String) :
    (slot.settleRefresh fingerprint).desk = slot.desk := by
  unfold SlotState.settleRefresh
  split <;> rfl

theorem advances_completeMcpRefresh (h : WellFormed c s) (slotId fingerprint : String) :
    Advances c s (completeMcpRefresh s slotId fingerprint).state :=
  advances_modifySlot (f := fun slot ↦ slot.completeRefresh fingerprint) h rfl (fun _ ↦ rfl) rfl
    le_rfl

theorem advances_releaseMcpRefresh (h : WellFormed c s) (slotId fingerprint : String) :
    Advances c s (releaseMcpRefresh s slotId fingerprint).state :=
  advances_modifySlot h rfl (fun slot ↦ desk_releaseRefresh slot fingerprint) rfl le_rfl

theorem advances_settleMcpRefreshClaim (h : WellFormed c s) (slotId fingerprint : String) :
    Advances c s (settleMcpRefreshClaim s slotId fingerprint).state :=
  advances_modifySlot h rfl (fun slot ↦ desk_settleRefresh slot fingerprint) rfl le_rfl

end Gates

end Zaowutai.Team
