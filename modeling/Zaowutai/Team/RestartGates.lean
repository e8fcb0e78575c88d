import Zaowutai.Lib.Swaps
import Zaowutai.Team.SlotCore

/-!
# Gates of a runtime restart

A gate puts a `Starting` constraint of its own in the place of the one that a
slot has.  It is rolled back only while its own constraint is still there, so
gates that were taken over each other come off from the newest one down.
-/

namespace Zaowutai.Team

open Zaowutai.Lib SlotWorkCoordinator

def CoordinatorState.constraintAt (s : CoordinatorState) (slotId : String) : RuntimeConstraint :=
  (s.coreAt slotId).runtimeConstraint

def RuntimeRestartGate.swap (gate : RuntimeRestartGate) : Swap RuntimeConstraint :=
  ⟨.starting gate.operationId, gate.previousConstraint⟩

def takenGate (s : CoordinatorState) (slotId : String) : CoordinatorOp → Option RuntimeRestartGate
  | .beginRuntimeRestart other allowQueued =>
      if other = slotId then (beginRuntimeRestart s other allowQueued).result.toOption else none
  | _ => none

def abortedGate (slotId : String) : CoordinatorOp → Option RuntimeRestartGate
  | .abortRuntimeRestart other gate => if other = slotId then some gate else none
  | _ => none

def gatesTaken (c : SlotWorkCoordinator) (slotId : String) :
    CoordinatorState → List CoordinatorOp → List RuntimeRestartGate
  | _, [] => []
  | s, op :: ops => gatesTaken c slotId (c.step s op) ops ++ (takenGate s slotId op).toList

def OnlyBegins (c : SlotWorkCoordinator) (slotId : String) (s : CoordinatorState)
    (op : CoordinatorOp) : Prop :=
  (takenGate s slotId op).isSome ∨ (c.step s op).constraintAt slotId = s.constraintAt slotId

def OnlyAborts (c : SlotWorkCoordinator) (slotId : String) (s : CoordinatorState)
    (op : CoordinatorOp) : Prop :=
  (abortedGate slotId op).isSome ∨ (c.step s op).constraintAt slotId = s.constraintAt slotId

instance (c : SlotWorkCoordinator) (slotId : String) (s : CoordinatorState) (op : CoordinatorOp) :
    Decidable (OnlyBegins c slotId s op) := by unfold OnlyBegins; infer_instance

instance (c : SlotWorkCoordinator) (slotId : String) (s : CoordinatorState) (op : CoordinatorOp) :
    Decidable (OnlyAborts c slotId s op) := by unfold OnlyAborts; infer_instance

variable {c : SlotWorkCoordinator} {s : CoordinatorState} {slotId : String} {op : CoordinatorOp}

section Operations

/-- The last operation id, as far as a `u64` holds it. -/
def CoordinatorState.lastOperation (s : CoordinatorState) : ℕ := min s.nextOperationId u64Max

theorem lastOperation_le_nextOperation : s.lastOperation ≤ s.nextOperation := by
  rw [CoordinatorState.lastOperation, CoordinatorState.nextOperation]
  omega

theorem nextOperationId_recoverAll (role : TeamRunTargetRole) (now : ℤ) (unread : List String)
    (acc : CoordinatorState × List String) :
    (unread.foldl (c.recoverMessage slotId role now) acc).1.nextOperationId =
      acc.1.nextOperationId := by
  induction unread generalizing acc with
  | nil => rfl
  | cons m unread ih =>
      rw [List.foldl_cons, ih, recoverMessage]
      split <;> rfl

theorem nextOperationId_cancelRun (teamRunId : String) :
    (cancelRun s teamRunId).state.nextOperationId = s.nextOperationId := by
  have hactives : ∀ (entries : List (String × ActiveBatch)) (s : CoordinatorState),
      (entries.foldl (cancelActive teamRunId) s).nextOperationId = s.nextOperationId := by
    intro entries
    induction entries with
    | nil => exact fun _ ↦ rfl
    | cons e entries ih => exact fun s ↦ ih (cancelActive teamRunId s e)
  have hqueued : ∀ (queued : List WorkIntent) (s : CoordinatorState),
      (queued.foldl cancelQueued s).nextOperationId = s.nextOperationId := by
    intro queued
    induction queued with
    | nil => exact fun _ ↦ rfl
    | cons intent queued ih => exact fun s ↦ ih (cancelQueued s intent)
  exact (hqueued _ _).trans (hactives _ _)

theorem nextOperationId_terminalizeBatch (batch : WorkBatch) (terminal : WorkIntentState)
    (delivery : DeliveryOutcome) :
    (c.terminalizeBatch s batch terminal delivery).state.nextOperationId = s.nextOperationId := by
  unfold terminalizeBatch
  split
  · rfl
  · split <;> rfl

theorem nextOperationId_step (op : CoordinatorOp) :
    (c.step s op).nextOperationId = s.nextOperationId ∨
      (c.step s op).nextOperationId = s.nextOperation := by
  cases op with
  | next slotId =>
      obtain ⟨hsame, -⟩ | ⟨slot, p, ids, -, -, -, -, -, hstate⟩ :=
        next_cases (c := c) (s := s) slotId
      · exact Or.inl (congrArg CoordinatorState.nextOperationId hsame)
      · exact Or.inr (congrArg CoordinatorState.nextOperationId hstate)
  | beginRuntimeRestart slotId allowQueued =>
      change (beginRuntimeRestart s slotId allowQueued).state.nextOperationId = _ ∨
        (beginRuntimeRestart s slotId allowQueued).state.nextOperationId = _
      unfold beginRuntimeRestart
      simp only
      split
      · exact Or.inl rfl
      · split
        · exact Or.inl rfl
        · exact Or.inl rfl
        · exact Or.inr rfl
  | reconcileMailboxSnapshot slotId unread role staleCandidates now =>
      exact Or.inl (nextOperationId_recoverAll role now unread _)
  | cancelRun teamRunId => exact Or.inl (nextOperationId_cancelRun teamRunId)
  | acquireEnqueue answers request =>
      refine Or.inl ?_
      change (c.acquireEnqueue s answers request).state.nextOperationId = _
      unfold acquireEnqueue
      simp only
      split <;> rfl
  | commitEnqueue lease messageId now =>
      refine Or.inl ?_
      change (c.commitEnqueue s lease messageId now).state.nextOperationId = _
      unfold commitEnqueue
      split <;> rfl
  | abortEnqueue lease =>
      refine Or.inl ?_
      change (c.abortEnqueue s lease).state.nextOperationId = _
      unfold abortEnqueue
      split
      · rfl
      · split <;> rfl
  | observeMessages other batchId messageIds =>
      refine Or.inl ?_
      change (observeMessages s other batchId messageIds).state.nextOperationId = _
      unfold observeMessages
      split
      · rfl
      · split <;> rfl
  | markStarted batch turnId now =>
      refine Or.inl ?_
      change (c.markStarted s batch turnId now).state.nextOperationId = _
      unfold markStarted
      split
      · rfl
      · split <;> rfl
  | retryStart batch =>
      refine Or.inl ?_
      change (c.retryStart s batch).state.nextOperationId = _
      unfold retryStart
      split <;> rfl
  | completeBatchWithAck batch =>
      refine Or.inl ?_
      change (c.completeBatchWithAck s batch).state.nextOperationId = _
      unfold completeBatchWithAck
      split
      · rfl
      · split <;> rfl
  | interruptBatch batch reason messageId =>
      refine Or.inl ?_
      change (c.interruptBatch s batch reason messageId).state.nextOperationId = _
      unfold interruptBatch
      split <;> rfl
  | completeSignals other intentIds =>
      refine Or.inl ?_
      change (completeSignals s other intentIds).state.nextOperationId = _
      unfold completeSignals
      split <;> rfl
  | setRuntimeConstraint other constraint =>
      refine Or.inl ?_
      change (setRuntimeConstraint s other constraint).state.nextOperationId = _
      unfold setRuntimeConstraint
      split <;> rfl
  | abortRuntimeRestart other gate =>
      refine Or.inl ?_
      change (abortRuntimeRestart s other gate).state.nextOperationId = _
      unfold abortRuntimeRestart
      split
      · rfl
      · split <;> rfl
  | requestMcpRefresh other fingerprint =>
      refine Or.inl ?_
      change (requestMcpRefresh s other fingerprint).state.nextOperationId = _
      unfold requestMcpRefresh
      simp only
      split
      · rfl
      · split <;> rfl
  | deferMcpRefresh other fingerprint =>
      refine Or.inl ?_
      change (deferMcpRefresh s other fingerprint).state.nextOperationId = _
      unfold deferMcpRefresh
      simp only
      split <;> rfl
  | claimPendingMcpRefresh other =>
      refine Or.inl ?_
      change (claimPendingMcpRefresh s other).state.nextOperationId = _
      unfold claimPendingMcpRefresh
      split
      · rfl
      · split
        · rfl
        · split <;> rfl
  | failBatch batch classification => exact Or.inl (nextOperationId_terminalizeBatch batch _ .failed)
  | cancelBatch batch classification =>
      exact Or.inl (nextOperationId_terminalizeBatch batch _ .notFailed)
  | takeInterruptMetadata batchId => exact Or.inl rfl
  | discardQueuedExcept other messageId => exact Or.inl rfl
  | pauseSlot other => exact Or.inl rfl
  | completeMcpRefresh other fingerprint => exact Or.inl rfl
  | releaseMcpRefresh other fingerprint => exact Or.inl rfl
  | settleMcpRefreshClaim other fingerprint => exact Or.inl rfl
  | removeSlot other => exact Or.inl rfl
  | stop => exact Or.inl rfl
  | rehash rank => exact Or.inl rfl

theorem lastOperation_step (op : CoordinatorOp) :
    s.lastOperation ≤ (c.step s op).lastOperation := by
  have hnext := nextOperationId_step (c := c) (s := s) op
  rw [CoordinatorState.nextOperation] at hnext
  rw [CoordinatorState.lastOperation, CoordinatorState.lastOperation]
  omega

theorem isSome_lookup_step (op : CoordinatorOp) (h : (s.slots.lookup slotId).isSome) :
    ((c.step s op).slots.lookup slotId).isSome := by
  obtain ⟨slot, hslot⟩ := Option.isSome_iff_exists.mp h
  obtain ⟨slot', hslot', -⟩ := (persists_step op).slots.removed slotId slot hslot
  exact Option.isSome_iff_exists.mpr ⟨slot', hslot'⟩

theorem isSome_lookup_run (ops : List CoordinatorOp) (h : (s.slots.lookup slotId).isSome) :
    ((run c.step s ops).slots.lookup slotId).isSome :=
  run_invariant (P := fun s : CoordinatorState ↦ (s.slots.lookup slotId).isSome)
    (fun _ op ↦ isSome_lookup_step op) h ops

end Operations

section Begins

variable {gate : RuntimeRestartGate} {ops : List CoordinatorOp}

theorem takenGate_eq_some (h : takenGate s slotId op = some gate) :
    gate = ⟨s.nextOperation, s.constraintAt slotId⟩ ∧
      (c.step s op).nextOperationId = s.nextOperation ∧
      (c.step s op).constraintAt slotId = .starting s.nextOperation ∧
      ((c.step s op).slots.lookup slotId).isSome := by
  cases op with
  | beginRuntimeRestart other allowQueued =>
      rw [takenGate] at h
      split at h
      · next heq =>
          subst heq
          obtain ⟨⟨rejection, hresult⟩, -⟩ | ⟨hresult, hnext, hcore⟩ :=
            coreAt_beginRuntimeRestart (s := s) other allowQueued
          · rw [hresult] at h
            cases h
          · rw [hresult] at h
            refine ⟨(Option.some.inj h).symm, hnext, ?_, ?_⟩
            · have hother := hcore other
              rw [if_pos rfl] at hother
              exact congrArg SlotCore.runtimeConstraint hother
            · change ((beginRuntimeRestart s other allowQueued).state.slots.lookup other).isSome
              unfold beginRuntimeRestart
              simp only
              split
              · simp [CoordinatorState.setSlot]
              · split <;> simp [CoordinatorState.setSlot]
      · cases h
  | _ => cases h

theorem lt_operationId {k : ℕ} (hbegins : Meets c.step (OnlyBegins c slotId) s ops)
    (hk : k ≤ s.lastOperation)
    (hbelow : k < s.lastOperation ∨ s.constraintAt slotId = .starting k) :
    ∀ gate ∈ gatesTaken c slotId s ops, gate.swap.changes = true → k < gate.operationId := by
  induction ops generalizing s with
  | nil => exact fun gate hgate ↦ absurd hgate List.not_mem_nil
  | cons op ops ih =>
      obtain ⟨hop, hops⟩ := hbegins
      have hlast := lastOperation_step (c := c) (s := s) op
      have hnext := lastOperation_le_nextOperation (s := s)
      intro gate hgate hchanges
      rw [gatesTaken, List.mem_append, Option.mem_toList] at hgate
      cases htaken : takenGate s slotId op with
      | none =>
          have hsame := hop.resolve_left (by simp [htaken])
          refine ih hops (hk.trans hlast) ?_ gate (hgate.resolve_right ?_) hchanges
          · rw [hsame]
            exact hbelow.imp_left fun h ↦ h.trans_le hlast
          · simp [htaken]
      | some taken =>
          obtain ⟨rfl, hoperation, hconstraint, -⟩ := takenGate_eq_some (c := c) htaken
          obtain hgate | hgate := hgate
          · refine ih hops (hk.trans hlast) ?_ gate hgate hchanges
            rw [hconstraint, CoordinatorState.lastOperation, hoperation]
            rw [CoordinatorState.nextOperation] at hnext ⊢
            by_cases heq : k = min (s.nextOperationId + 1) u64Max
            · exact Or.inr (congrArg RuntimeConstraint.starting heq.symm)
            · exact Or.inl (by omega)
          · obtain rfl := Option.some.inj (htaken.symm.trans hgate)
            have hne : s.constraintAt slotId ≠ .starting s.nextOperation :=
              of_decide_eq_true hchanges
            obtain hlt | heq := hbelow
            · exact hlt.trans_le hnext
            · refine (hk.trans hnext).lt_of_ne ?_
              rintro rfl
              exact hne heq

theorem nodup_gatesTaken (hbegins : Meets c.step (OnlyBegins c slotId) s ops) :
    ((((gatesTaken c slotId s ops).map RuntimeRestartGate.swap).filter Swap.changes).map
      Swap.new).Nodup := by
  induction ops generalizing s with
  | nil => exact List.nodup_nil
  | cons op ops ih =>
      obtain ⟨hop, hops⟩ := hbegins
      rw [gatesTaken, List.map_append, List.filter_append, List.map_append, List.nodup_append]
      refine ⟨ih hops, ?_, ?_⟩
      · refine List.nodup_iff_sublist.mpr fun a hsub ↦ ?_
        have hlength := hsub.length_le
        have hfilter := List.length_filter_le Swap.changes
          ((takenGate s slotId op).toList.map RuntimeRestartGate.swap)
        cases htaken : takenGate s slotId op with
        | none => simp [htaken] at hlength
        | some gate =>
            simp [htaken] at hlength hfilter
            omega
      · intro a ha b hb
        obtain ⟨swap, hswap, rfl⟩ := List.mem_map.mp ha
        obtain ⟨hswap, hchanges⟩ := List.mem_filter.mp hswap
        obtain ⟨gate, hgate, rfl⟩ := List.mem_map.mp hswap
        obtain ⟨swap', hswap', rfl⟩ := List.mem_map.mp hb
        obtain ⟨old, hold, rfl⟩ := List.mem_map.mp (List.mem_of_mem_filter hswap')
        obtain ⟨rfl, hoperation, hconstraint, -⟩ :=
          takenGate_eq_some (c := c) (Option.mem_toList.mp hold)
        have hle : s.nextOperation ≤ (c.step s op).lastOperation := by
          rw [CoordinatorState.lastOperation, hoperation, CoordinatorState.nextOperation]
          omega
        have hlt := lt_operationId hops hle (Or.inr hconstraint) gate hgate hchanges
        intro heq
        exact hlt.ne' (RuntimeConstraint.starting.inj heq)

theorem taken_gatesTaken (hbegins : Meets c.step (OnlyBegins c slotId) s ops) :
    Taken (s.constraintAt slotId) ((gatesTaken c slotId s ops).map RuntimeRestartGate.swap) ∧
      (run c.step s ops).constraintAt slotId =
        top (s.constraintAt slotId) ((gatesTaken c slotId s ops).map RuntimeRestartGate.swap) := by
  induction ops generalizing s with
  | nil => exact ⟨trivial, rfl⟩
  | cons op ops ih =>
      obtain ⟨hop, hops⟩ := hbegins
      obtain ⟨htaken, hconstraint⟩ := ih hops
      rw [gatesTaken, List.map_append, taken_append, top_append, run_cons]
      cases hgate : takenGate s slotId op with
      | none =>
          have hsame := hop.resolve_left (by simp [hgate])
          rw [hsame] at htaken hconstraint
          exact ⟨⟨htaken, trivial⟩, hconstraint⟩
      | some gate =>
          obtain ⟨rfl, -, hstarting, -⟩ := takenGate_eq_some (c := c) hgate
          rw [hstarting] at htaken hconstraint
          exact ⟨⟨htaken, rfl, trivial⟩, hconstraint⟩

theorem isSome_lookup_of_gatesTaken (h : gatesTaken c slotId s ops ≠ []) :
    ((run c.step s ops).slots.lookup slotId).isSome := by
  induction ops generalizing s with
  | nil => exact absurd rfl h
  | cons op ops ih =>
      rw [gatesTaken] at h
      by_cases hrest : gatesTaken c slotId (c.step s op) ops = []
      · cases hgate : takenGate s slotId op with
        | none => simp [hrest, hgate] at h
        | some gate => exact isSome_lookup_run ops (takenGate_eq_some hgate).2.2.2
      · exact ih hrest

end Begins

section Aborts

variable {ops : List CoordinatorOp}

theorem constraintAt_of_abortedGate {gate : RuntimeRestartGate}
    (h : abortedGate slotId op = some gate) (hslot : (s.slots.lookup slotId).isSome) :
    (c.step s op).constraintAt slotId = gate.swap.undo (s.constraintAt slotId) := by
  cases op with
  | abortRuntimeRestart other gate' =>
      rw [abortedGate] at h
      split at h
      · next heq =>
          subst heq
          obtain rfl := Option.some.inj h
          have hcore := coreAt_abortRuntimeRestart other gate' other hslot
          change (abortRuntimeRestart s other gate').state.constraintAt other = _
          rw [CoordinatorState.constraintAt, hcore, Swap.undo]
          by_cases hown : s.constraintAt other = .starting gate'.operationId
          · rw [if_pos ⟨rfl, hown⟩]
            exact (if_pos hown).symm
          · rw [if_neg fun h ↦ hown h.2]
            exact (if_neg hown).symm
      · cases h
  | _ => cases h

theorem constraintAt_aborts (haborts : Meets c.step (OnlyAborts c slotId) s ops)
    (hslot : ops.filterMap (abortedGate slotId) ≠ [] → (s.slots.lookup slotId).isSome) :
    (run c.step s ops).constraintAt slotId =
      ((ops.filterMap (abortedGate slotId)).map RuntimeRestartGate.swap).foldl
        (fun x swap ↦ swap.undo x) (s.constraintAt slotId) := by
  induction ops generalizing s with
  | nil => rfl
  | cons op ops ih =>
      obtain ⟨hop, hops⟩ := haborts
      rw [run_cons]
      cases hgate : abortedGate slotId op with
      | none =>
          have hsame := hop.resolve_left (by simp [hgate])
          rw [List.filterMap_cons_none hgate] at hslot ⊢
          rw [ih hops fun h ↦ isSome_lookup_step op (hslot h), hsame]
      | some gate =>
          rw [List.filterMap_cons_some hgate] at hslot ⊢
          have hhere := hslot (List.cons_ne_nil _ _)
          rw [ih hops fun _ ↦ isSome_lookup_step op hhere,
            constraintAt_of_abortedGate hgate hhere]
          rfl

end Aborts

section Results

/-- A slot has its first constraint back, after each gate was rolled back once, exactly when the
gates came off in order. -/
theorem constraint_restored_iff (c : SlotWorkCoordinator) (s : CoordinatorState) (slotId : String)
    (begins aborts : List CoordinatorOp) (hbegins : Meets c.step (OnlyBegins c slotId) s begins)
    (haborts : Meets c.step (OnlyAborts c slotId) (run c.step s begins) aborts)
    (hgates : (aborts.filterMap (abortedGate slotId)).Perm (gatesTaken c slotId s begins)) :
    (run c.step s (begins ++ aborts)).constraintAt slotId = s.constraintAt slotId ↔
      UndoneInOrder (s.constraintAt slotId)
        (((gatesTaken c slotId s begins).map RuntimeRestartGate.swap).filter Swap.changes)
        (((aborts.filterMap (abortedGate slotId)).map RuntimeRestartGate.swap).filter
          Swap.changes) := by
  obtain ⟨htaken, hconstraint⟩ := taken_gatesTaken hbegins
  have hslot : aborts.filterMap (abortedGate slotId) ≠ [] →
      ((run c.step s begins).slots.lookup slotId).isSome := by
    intro hne
    refine isSome_lookup_of_gatesTaken fun hnil ↦ hne ?_
    rw [hnil] at hgates
    exact hgates.eq_nil
  rw [run_append, constraintAt_aborts haborts hslot, hconstraint]
  exact undone_iff htaken (nodup_gatesTaken hbegins) (hgates.map _)

/-- Two restarts of a slot, the second one while the first one still has its gate. -/
def twoRestarts : List CoordinatorOp := [.beginRuntimeRestart "s" true, .beginRuntimeRestart "s" true]

def firstGate : RuntimeRestartGate := ⟨1, .starting 0⟩

def secondGate : RuntimeRestartGate := ⟨2, .starting 1⟩

theorem newest_first_restores :
    (run tallied.step .empty (twoRestarts ++
      [.abortRuntimeRestart "s" secondGate, .abortRuntimeRestart "s" firstGate])).constraintAt "s" =
        .starting 0 :=
  (constraint_restored_iff tallied .empty "s" twoRestarts
    [.abortRuntimeRestart "s" secondGate, .abortRuntimeRestart "s" firstGate] (by decide)
    (by decide) (by decide)).mpr (Or.inl (by decide))

/-- The gate that was taken first is rolled back in vain, and the second one brings its constraint
back. -/
theorem oldest_first_leaves_gate :
    ¬ ∀ (c : SlotWorkCoordinator) (s : CoordinatorState) (slotId : String)
      (begins aborts : List CoordinatorOp), Meets c.step (OnlyBegins c slotId) s begins →
      Meets c.step (OnlyAborts c slotId) (run c.step s begins) aborts →
      (aborts.filterMap (abortedGate slotId)).Perm (gatesTaken c slotId s begins) →
      (run c.step s (begins ++ aborts)).constraintAt slotId = s.constraintAt slotId := by
  intro h
  have hrestored := h tallied .empty "s" twoRestarts
    [.abortRuntimeRestart "s" firstGate, .abortRuntimeRestart "s" secondGate] (by decide)
    (by decide) (by decide)
  revert hrestored
  decide

end Results

end Zaowutai.Team
