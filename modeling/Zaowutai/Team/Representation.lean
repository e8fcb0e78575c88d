import Mathlib.Data.List.TakeWhile
import Zaowutai.Team.RuntimeSteps

/-!
# Representation of the work of a session

The invariant of all steps, and what it says about the lanes and the active
batches after any run of the coordinator.
-/

namespace Zaowutai.Team

open Zaowutai.Lib SlotWorkCoordinator

variable {c : SlotWorkCoordinator} {s : CoordinatorState}

theorem advances_rehash (h : WellFormed c s) (rank : String → ℕ) :
    Advances c s (rehash s rank) :=
  advances_idle h (fun _ ↦ Table.lookup_reorder rank) (fun _ ↦ rfl) le_rfl

theorem advances_step (h : WellFormed c s) {op : CoordinatorOp} (hop : GenuineBatches c s op) :
    Advances c s (c.step s op) := by
  cases op with
  | acquireEnqueue answers request => exact advances_acquireEnqueue h answers request
  | commitEnqueue lease messageId now => exact advances_commitEnqueue h lease messageId now
  | abortEnqueue lease => exact advances_abortEnqueue h lease
  | reconcileMailboxSnapshot slotId unread role staleCandidates now =>
      exact advances_reconcileMailboxSnapshot h slotId unread role staleCandidates now
  | next slotId => exact advances_next h slotId
  | observeMessages slotId batchId messageIds =>
      exact advances_observeMessages h slotId batchId messageIds
  | markStarted batch turnId now => exact advances_markStarted h (hop batch rfl) turnId now
  | retryStart batch => exact advances_retryStart h (hop batch rfl)
  | completeBatchWithAck batch => exact advances_completeBatchWithAck h batch
  | failBatch batch classification =>
      exact advances_terminalizeBatch h (hop batch rfl) rfl .failed
  | cancelBatch batch classification =>
      exact advances_terminalizeBatch h (hop batch rfl) rfl .notFailed
  | interruptBatch batch reason messageId =>
      exact advances_interruptBatch h (hop batch rfl) reason messageId
  | takeInterruptMetadata batchId =>
      exact advances_idle h (fun _ ↦ rfl) (fun _ ↦ rfl) le_rfl
  | discardQueuedExcept slotId messageId => exact advances_discardQueuedExcept h slotId messageId
  | cancelRun teamRunId => exact advances_cancelRun h teamRunId
  | completeSignals slotId intentIds => exact advances_completeSignals h slotId intentIds
  | pauseSlot slotId => exact advances_pauseSlot h slotId
  | setRuntimeConstraint slotId constraint =>
      exact advances_setRuntimeConstraint h slotId constraint
  | beginRuntimeRestart slotId allowQueued =>
      exact advances_beginRuntimeRestart h slotId allowQueued
  | abortRuntimeRestart slotId gate => exact advances_abortRuntimeRestart h slotId gate
  | requestMcpRefresh slotId fingerprint => exact advances_requestMcpRefresh h slotId fingerprint
  | deferMcpRefresh slotId fingerprint => exact advances_deferMcpRefresh h slotId fingerprint
  | claimPendingMcpRefresh slotId => exact advances_claimPendingMcpRefresh h slotId
  | completeMcpRefresh slotId fingerprint => exact advances_completeMcpRefresh h slotId fingerprint
  | releaseMcpRefresh slotId fingerprint => exact advances_releaseMcpRefresh h slotId fingerprint
  | settleMcpRefreshClaim slotId fingerprint =>
      exact advances_settleMcpRefreshClaim h slotId fingerprint
  | removeSlot slotId => exact advances_removeSlot h slotId
  | stop => exact advances_stop h
  | rehash rank => exact advances_rehash h rank

theorem wellFormed_run (h : WellFormed c s) {ops : List CoordinatorOp}
    (hops : Meets c.step (GenuineBatches c) s ops) : WellFormed c (run c.step s ops) :=
  run_of_meets (P := WellFormed c) (fun _ _ hs hop ↦ (advances_step hs hop).wellFormed) h hops

theorem terminal_run (h : WellFormed c s) {ops : List CoordinatorOp}
    (hops : Meets c.step (GenuineBatches c) s ops) {id : String} {intent : WorkIntent}
    (hi : s.intents.lookup id = some intent) (ht : intent.state.isTerminal = true) :
    (run c.step s ops).intents.lookup id = some intent := by
  induction ops generalizing s with
  | nil => exact hi
  | cons op ops ih =>
      have hstep := advances_step h hops.1
      exact ih hstep.wellFormed hops.2 (hstep.terminal id intent hi ht)

def CoordinatorState.lane (s : CoordinatorState) (slotId : String) (priority : WorkPriority) :
    List String :=
  (s.slots.lookup slotId).elim [] fun slot ↦ slot.queue priority

/-- The representation of the work of a session, in the words of the state. -/
structure Represents (s : CoordinatorState) : Prop where
  queued : ∀ id intent, s.intents.lookup id = some intent → intent.state = .queued →
    ∀ slotId priority, (s.lane slotId priority).count id =
      if slotId = intent.slotId ∧ priority = intent.priority then 1 else 0
  lane : ∀ slotId priority, ∀ id ∈ s.lane slotId priority,
    ∃ intent, s.intents.lookup id = some intent ∧ intent.state = .queued
  claimed : ∀ id intent batchId operationId, s.intents.lookup id = some intent →
    intent.state.claim = some (batchId, operationId) →
      ∃ active, s.activeBatch intent.slotId = some active ∧ active.batch.batchId = batchId ∧
        active.batch.operationId = operationId ∧ active.batch.intentIds.count id = 1
  batch : ∀ slotId active, s.activeBatch slotId = some active → ∀ id ∈ active.batch.intentIds,
    ∃ intent, s.intents.lookup id = some intent ∧ intent.slotId = slotId ∧
      intent.state.claim = some (active.batch.batchId, active.batch.operationId)

theorem lane_deskAt (slotId : String) (priority : WorkPriority) :
    (s.deskAt slotId).lane priority = s.lane slotId priority := by
  unfold CoordinatorState.deskAt CoordinatorState.lane
  cases s.slots.lookup slotId <;> rfl

theorem represents_of_wellFormed (h : WellFormed c s) : Represents s where
  queued id intent hi hq slotId priority := by
    have hindex := (h.desks slotId).lanes priority
    rw [lane_deskAt] at hindex
    have hmem : id ∈ s.lane slotId priority ↔ slotId = intent.slotId ∧ priority = intent.priority := by
      rw [hindex.mem_iff_of_lookup hi, QueuedIn]
      simp [hq, eq_comm]
    rw [List.Nodup.count hindex.nodup]
    simp only [hmem]
  lane slotId priority id hid := by
    have hindex := (h.desks slotId).lanes priority
    rw [lane_deskAt] at hindex
    obtain ⟨intent, hi, hq⟩ := (hindex.mem_iff id).mp hid
    exact ⟨intent, hi, hq.2.2⟩
  claimed id intent batchId operationId hi hclaim := by
    have hc : ClaimedIn intent.slotId intent := ⟨rfl, by rw [hclaim]; rfl⟩
    have hmem := (h.mem_claimed hi).mpr hc
    cases hactive : s.activeBatch intent.slotId with
    | none => simp [Desk.claimedIds, owner_deskAt, hactive] at hmem
    | some active =>
        have howner : (s.deskAt intent.slotId).owner = some active.batch.core := by
          rw [owner_deskAt, hactive]
          rfl
        have howns := (h.desks intent.slotId).owns _ howner id intent hi hc
        have hsame := hclaim.symm.trans howns.claim
        have hnodup := (h.desks intent.slotId).claimed.nodup
        rw [claimedIds_of_activeBatch hactive] at hmem hnodup
        have hpair := Prod.mk.inj (Option.some.inj hsame)
        exact ⟨active, rfl, hpair.1.symm, hpair.2.symm, List.count_eq_one_of_mem hnodup hmem⟩
  batch slotId active hactive id hid := by
    rw [← claimedIds_of_activeBatch hactive] at hid
    obtain ⟨intent, hi, hc⟩ := ((h.desks slotId).claimed.mem_iff id).mp hid
    have howner : (s.deskAt slotId).owner = some active.batch.core := by
      rw [owner_deskAt, hactive]
      rfl
    exact ⟨intent, hi, hc.1, ((h.desks slotId).owns _ howner id intent hi hc).claim⟩

/-- After every run from the empty state the work of the session is represented, and an intent
that was terminal at some moment of the run is still as it was. -/
theorem coordinator_represents_work (c : SlotWorkCoordinator) (ops : List CoordinatorOp)
    (hops : Meets c.step (GenuineBatches c) .empty ops) :
    Represents (run c.step .empty ops) ∧
      ∀ pre, pre <+: ops → ∀ id intent,
        (run c.step .empty pre).intents.lookup id = some intent →
          intent.state.isTerminal = true →
            (run c.step .empty ops).intents.lookup id = some intent := by
  refine ⟨represents_of_wellFormed (wellFormed_run wellFormed_empty hops), ?_⟩
  rintro pre ⟨post, rfl⟩ id intent hi ht
  obtain ⟨hpre, hpost⟩ := meets_append.mp hops
  rw [run_append]
  exact terminal_run (wellFormed_run wellFormed_empty hpre) hpost hi ht

def tallied : SlotWorkCoordinator where
  sessionGeneration := "g"
  generateId k := String.ofList (List.replicate k '|')
  generateId_injective _ _ h := List.replicate_left_injective '|' (String.ofList_injective h)

/-- One user message is enqueued for a ready slot and claimed by the batch `claimedBatch`. -/
def claimOne : List CoordinatorOp :=
  [.setRuntimeConstraint "s" .ready,
    .acquireEnqueue ⟨fun _ ↦ ⟨none, false, false⟩, fun _ ↦ ⟨none, false, false⟩⟩
      ⟨"s", .lead, .userMessage, .background⟩,
    .commitEnqueue ⟨"", "g", "s", .lead, .userMessage, none⟩ (some "m") 0,
    .next "s"]

def claimedBatch : WorkBatch where
  batchId := "||"
  sessionGeneration := "g"
  slotId := "s"
  intentIds := ["|"]
  mailboxMessageIds := ["m"]
  observedMessageIds := []
  highestPriority := .foreground
  teamRunIds := []
  operationId := 1
  isCommand := false

theorem failed_claimOne_represented :
    Represents (run tallied.step .empty (claimOne ++ [.failBatch claimedBatch "timeout"])) :=
  (coordinator_represents_work tallied (claimOne ++ [.failBatch claimedBatch "timeout"])
    (by decide)).1

/-- The batch argument is taken at its word: one that omits the claimed intent releases the slot
and leaves the intent claimed by nobody. -/
theorem forgedBatch_not_represented :
    ¬ Represents (run tallied.step .empty
      (claimOne ++ [.failBatch { claimedBatch with intentIds := [] } "timeout"])) := by
  intro h
  obtain ⟨active, hactive, _⟩ := h.claimed "|"
    ⟨"|", "g", "s", .lead, .userMessage, .foreground, some "m", none, 0, .starting "||" 1⟩ "||" 1
    (by decide) rfl
  have hnone : (run tallied.step .empty
      (claimOne ++ [.failBatch { claimedBatch with intentIds := [] } "timeout"])).activeBatch
        "s" = none := by decide
  exact absurd (hnone.symm.trans hactive) (by simp)

end Zaowutai.Team

/-!
## Which work one batch takes

`next` looks at the first lane that is not empty.  Signals in it are skipped:
only intents that carry a message make a batch.  A slash command or an
intervention of the lead is a batch of its own, and it also ends the run of
ordinary messages that stands before it.
-/

namespace Zaowutai.Team

open Zaowutai.Lib SlotWorkCoordinator

/-- The place of a lane in the order in which `next` tries them. -/
def WorkPriority.laneRank : WorkPriority → ℕ
  | .foreground => 0
  | .control => 1
  | .directed => 2
  | .background => 3

def CoordinatorState.messageIntents (s : CoordinatorState) (slotId : String)
    (priority : WorkPriority) : List String :=
  (s.lane slotId priority).filter fun id ↦ (s.messageOf id).isSome

def TakesRun (isolated : String → Bool) (messages taken : List String) : Prop :=
  (∃ head rest, messages = head :: rest ∧ isolated head = true ∧ taken = [head]) ∨
    ∃ rest, messages = taken ++ rest ∧ taken ≠ [] ∧ (∀ id ∈ taken, isolated id = false) ∧
      ∀ id ∈ rest.head?, isolated id = true

structure Selects (s s' : CoordinatorState) (slotId : String) (batch : WorkBatch) : Prop where
  ready : ∃ slot, s.slots.lookup slotId = some slot ∧ slot.active = none ∧
    slot.runtimeConstraint = .ready ∧ slot.paused = false
  earlier : ∀ priority : WorkPriority, priority.laneRank < batch.highestPriority.laneRank →
    s.lane slotId priority = []
  taken : TakesRun s.isIsolated (s.messageIntents slotId batch.highestPriority) batch.intentIds
  messages : batch.intentIds.map s.messageOf = batch.mailboxMessageIds.map some
  command : batch.isCommand = true ↔ ∃ id intent, batch.intentIds = [id] ∧
    s.intents.lookup id = some intent ∧ intent.source = .userCommand
  left : ∀ other priority, s'.lane other priority =
    if other = slotId ∧ priority = batch.highestPriority then
      (s.lane other priority).filter (· ∉ batch.intentIds)
    else s.lane other priority

section Select

variable {c : SlotWorkCoordinator} {s : CoordinatorState} {slotId : String}

theorem takesRun_select {messages : List String} (h : messages ≠ []) :
    TakesRun s.isIsolated messages (s.selectMessageIntents messages) := by
  cases messages with
  | nil => exact absurd rfl h
  | cons head rest =>
      rw [CoordinatorState.selectMessageIntents]
      split
      · next hhead => exact Or.inl ⟨head, rest, rfl, hhead, rfl⟩
      · next hhead =>
          refine Or.inr ⟨rest.dropWhile fun id ↦ !s.isIsolated id, ?_, by simp, ?_, ?_⟩
          · rw [List.cons_append, List.takeWhile_append_dropWhile]
          · intro id hid
            obtain rfl | hid := List.mem_cons.mp hid
            · simpa using hhead
            · simpa using List.mem_takeWhile_imp hid
          · intro id hid
            have hstop := List.head?_dropWhile_not (fun id ↦ !s.isIsolated id) rest
            rw [Option.mem_def.mp hid] at hstop
            simpa using hstop

theorem TakesRun.sublist {isolated : String → Bool} {messages taken : List String}
    (h : TakesRun isolated messages taken) : taken <+: messages := by
  obtain ⟨head, rest, rfl, _, rfl⟩ | ⟨rest, rfl, _⟩ := h
  · exact ⟨rest, rfl⟩
  · exact ⟨rest, rfl⟩

theorem selectedPriority_some {slot : SlotState} {priority : WorkPriority}
    (h : slot.selectedPriority = some priority) {other : WorkPriority}
    (hother : other.laneRank < priority.laneRank) : slot.queue other = [] := by
  obtain ⟨_, earlier, later, horder, hempty⟩ := List.find?_eq_some_iff_append.mp h
  have hsorted : [.foreground, .control, .directed, .background].Pairwise
      fun a b : WorkPriority ↦ a.laneRank < b.laneRank := by decide
  rw [horder] at hsorted
  have hmem : other ∈ [WorkPriority.foreground, .control, .directed, .background] := by
    cases other <;> decide
  rw [horder] at hmem
  obtain hearlier | hlater := List.mem_append.mp hmem
  · simpa using hempty other hearlier
  · obtain rfl | hlater := List.mem_cons.mp hlater
    · exact absurd hother (lt_irrefl _)
    · have hafter := (List.pairwise_cons.mp (List.pairwise_append.mp hsorted).2.1).1 other hlater
      exact absurd hother hafter.asymm

theorem messageIntents_of_lookup {slot : SlotState} (hslot : s.slots.lookup slotId = some slot)
    (priority : WorkPriority) : s.messageIntents slotId priority =
      (slot.queue priority).filter fun id ↦ (s.messageOf id).isSome := by
  rw [CoordinatorState.messageIntents, CoordinatorState.lane, hslot]
  rfl

theorem next_claim {batch : WorkBatch} (h : (c.next s slotId).result = .claim batch) :
    ∃ slot, s.slots.lookup slotId = some slot ∧ slot.active = none ∧
      slot.runtimeConstraint = .ready ∧ slot.paused = false ∧
        ∃ priority, slot.selectedPriority = some priority ∧
          s.messageIntents slotId priority ≠ [] ∧
            batch = c.claimBatch s slotId priority
              (s.selectMessageIntents (s.messageIntents slotId priority)) ∧
              (c.next s slotId).state = claimed s slotId slot batch := by
  unfold next at h ⊢
  split at h
  · cases h
  · next slot hslot =>
      split at h
      · cases h
      · next hfree =>
          split at h
          · cases h
          · next hready =>
              split at h
              · cases h
              · next hpaused =>
                  split at h
                  · cases h
                  · next priority hpriority =>
                      simp only at h
                      split at h
                      · cases h
                      · next hmessages =>
                          cases h
                          refine ⟨slot, hslot, by simpa using hfree, by simpa using hready,
                            by simpa using hpaused, priority, hpriority, ?_, ?_, ?_⟩
                          · rw [messageIntents_of_lookup hslot]
                            simpa using hmessages
                          · rw [messageIntents_of_lookup hslot]
                          · simp [hfree, hready, hpaused, hmessages]

theorem lane_of_deskAt (other : String) (priority : WorkPriority) :
    s.lane other priority = (s.deskAt other).lane priority := (lane_deskAt other priority).symm

theorem exists_message_of_mem {priority : WorkPriority} {id : String}
    (hid : id ∈ s.messageIntents slotId priority) :
    id ∈ s.lane slotId priority ∧ ∃ messageId, s.messageOf id = some messageId :=
  ⟨(List.mem_filter.mp hid).1, Option.isSome_iff_exists.mp (List.mem_filter.mp hid).2⟩

theorem map_messageOf {ids : List String}
    (h : ∀ id ∈ ids, ∃ messageId, s.messageOf id = some messageId) :
    ids.map s.messageOf = (ids.filterMap s.messageOf).map some := by
  induction ids with
  | nil => rfl
  | cons id ids ih =>
      obtain ⟨messageId, hid⟩ := h id List.mem_cons_self
      rw [List.map_cons, List.filterMap_cons_some hid, List.map_cons, hid,
        ih fun other hother ↦ h other (List.mem_cons_of_mem _ hother)]

theorem isCommand_iff {ids messages : List String} (h : TakesRun s.isIsolated messages ids) :
    (ids.head?.any fun id ↦ (s.intents.lookup id).any fun intent ↦
      decide (intent.source = .userCommand)) = true ↔
        ∃ id intent, ids = [id] ∧ s.intents.lookup id = some intent ∧
          intent.source = .userCommand := by
  constructor
  · intro hcommand
    obtain ⟨id, hhead, hid⟩ := (Option.any_eq_true _ _).mp hcommand
    obtain ⟨intent, hi, hsource⟩ := (Option.any_eq_true _ _).mp hid
    have hsource := of_decide_eq_true hsource
    refine ⟨id, intent, ?_, hi, hsource⟩
    have hisolated : s.isIsolated id = true := by
      simp [CoordinatorState.isIsolated, hi, hsource, WorkSource.isIsolated]
    obtain ⟨head, rest, _, _, rfl⟩ | ⟨rest, _, _, hplain, _⟩ := h
    · rw [List.head?_cons, Option.some.injEq] at hhead
      rw [hhead]
    · have hfalse := hplain id (List.mem_of_mem_head? hhead)
      rw [hisolated] at hfalse
      cases hfalse
  · rintro ⟨id, intent, rfl, hi, hsource⟩
    simp [hi, hsource]

theorem selects_next (h : WellFormed c s) {batch : WorkBatch}
    (hclaim : (c.next s slotId).result = .claim batch) :
    Selects s (c.next s slotId).state slotId batch := by
  obtain ⟨slot, hslot, hfree, hready, hpaused, priority, hpriority, hmessages, rfl, hstate⟩ :=
    next_claim hclaim
  have htaken := takesRun_select (s := s) hmessages
  have hlane : ∀ p, s.lane slotId p = slot.queue p := fun p ↦ by
    rw [CoordinatorState.lane, hslot]
    rfl
  have hmem : ∀ id ∈ s.selectMessageIntents (s.messageIntents slotId priority),
      id ∈ s.messageIntents slotId priority := fun id hid ↦ htaken.sublist.subset hid
  refine ⟨⟨slot, hslot, hfree, hready, hpaused⟩, ?_, htaken, ?_, isCommand_iff htaken, ?_⟩
  · intro other hother
    rw [hlane]
    exact selectedPriority_some hpriority hother
  · exact map_messageOf fun id hid ↦ (exists_message_of_mem (hmem id hid)).2
  · intro other p
    rw [hstate, lane_of_deskAt, deskAt_claimed hslot rfl, lane_of_deskAt]
    by_cases hsame : other = slotId
    · subst hsame
      rw [if_pos rfl]
      by_cases hp : p = priority
      · rw [if_pos ⟨rfl, hp⟩]
        change List.filter _ _ = _
        simp
      · rw [if_neg fun hboth ↦ hp hboth.2]
        refine List.filter_eq_self.mpr fun id hid ↦ ?_
        have hout : id ∉ s.selectMessageIntents (s.messageIntents other priority) := by
          intro hin
          have hqueued := (exists_message_of_mem (hmem id hin)).1
          rw [lane_of_deskAt] at hqueued
          obtain ⟨intent, hi, hq⟩ := (((h.desks other).lanes p).mem_iff id).mp hid
          exact hp (hq.2.1.symm.trans (((h.desks other).mem_lane hi priority).mp hqueued).2.1)
        exact (Bool.not_eq_true' _).mpr (decide_eq_false hout)
    · rw [if_neg hsame, if_neg fun hboth ↦ hsame hboth.1]

end Select

end Zaowutai.Team
