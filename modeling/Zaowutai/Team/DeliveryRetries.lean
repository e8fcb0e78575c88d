import Zaowutai.Team.SlotCore

/-!
# The retries of a delivery

A batch that fails costs each message it claimed one retry, and a message
without retries left is reported and pauses its slot.  The count is compared
with the history of the slot: how many batches that claimed the message have
failed since one that carried it ended otherwise.  The two agree as long as no
batch lists a message twice.
-/

namespace Zaowutai.Team

open Zaowutai.Lib SlotWorkCoordinator

namespace CoordinatorState

variable (s : CoordinatorState) (slotId : String)

def claimedMessages : List String :=
  (s.activeBatch slotId).elim [] fun active ↦ active.batch.mailboxMessageIds

def carriedMessages : List String :=
  (s.activeBatch slotId).elim [] fun active ↦ ackMessages active.batch

def failureCount (messageId : String) : ℕ :=
  ((s.coreAt slotId).deliveryFailureCounts.lookup messageId).getD 0

end CoordinatorState

structure DeliveryHistory where
  state : CoordinatorState
  /-- The failed batches that claimed the message since its count was last cleared. -/
  failures : String → String → ℕ
  /-- A snapshot has left the message out since its count was last cleared. -/
  missed : String → String → Bool
  /-- The slot ran out of retries, and nobody who may resume it has committed work since. -/
  halted : String → Bool

namespace DeliveryHistory

def init : DeliveryHistory := ⟨.empty, fun _ _ ↦ 0, fun _ _ ↦ false, fun _ ↦ false⟩

variable (c : SlotWorkCoordinator) (h : DeliveryHistory)

def fail (slotId : String) (messageIds : List String) : DeliveryHistory :=
  { h with failures := fun other m ↦
      if other = slotId ∧ m ∈ messageIds then h.failures other m + 1 else h.failures other m }

def clear (slotId : String) (messageIds : List String) : DeliveryHistory :=
  { h with
    failures := fun other m ↦
      if other = slotId ∧ m ∈ messageIds then 0 else h.failures other m
    missed := fun other m ↦
      if other = slotId ∧ m ∈ messageIds then false else h.missed other m }

def note (op : CoordinatorOp) : DeliveryHistory :=
  match op with
  | .failBatch batch classification =>
      if c.isCurrentBatch h.state batch then
        { h.fail batch.slotId (h.state.claimedMessages batch.slotId) with
          halted := fun other ↦ h.halted other ||
            decide (other = batch.slotId ∧
              (c.failBatch h.state batch classification).result.exhaustedMessageIds ≠ []) }
      else h
  | .cancelBatch batch _ | .interruptBatch batch _ _ =>
      if c.isCurrentBatch h.state batch then
        h.clear batch.slotId (h.state.claimedMessages batch.slotId)
      else h
  | .completeBatchWithAck batch =>
      if c.isCurrentBatch h.state batch then
        h.clear batch.slotId (h.state.carriedMessages batch.slotId)
      else h
  | .reconcileMailboxSnapshot slotId unread _ _ _ =>
      { h with missed := fun other m ↦ h.missed other m || decide (other = slotId ∧ m ∉ unread) }
  | .commitEnqueue lease messageId now =>
      if (c.commitEnqueue h.state lease messageId now).result.isOk &&
          lease.source.resumesPausedSlot then
        { h with halted := fun other ↦ h.halted other && decide (other ≠ lease.slotId) }
      else h
  | _ => h

def step (op : CoordinatorOp) : DeliveryHistory :=
  { h.note c op with state := c.step h.state op }

end DeliveryHistory

def CoordinatorOp.failed? : CoordinatorOp → Option WorkBatch
  | .failBatch batch _ => some batch
  | _ => none

def NamesClaimed (c : SlotWorkCoordinator) (s : CoordinatorState) (op : CoordinatorOp) : Prop :=
  ∀ batch ∈ op.batch?, c.isCurrentBatch s batch = true →
    batch.mailboxMessageIds = s.claimedMessages batch.slotId

/-- The messages of a batch that fails were in every snapshot since their counts were last
cleared: they are still unread. -/
def SnapshotsComplete (c : SlotWorkCoordinator) (h : DeliveryHistory) (op : CoordinatorOp) : Prop :=
  ∀ batch ∈ op.failed?, c.isCurrentBatch h.state batch = true →
    ∀ m ∈ h.state.claimedMessages batch.slotId, h.missed batch.slotId m = false

def FailsDistinct (c : SlotWorkCoordinator) (s : CoordinatorState) (op : CoordinatorOp) : Prop :=
  ∀ batch ∈ op.failed?, c.isCurrentBatch s batch = true →
    (s.claimedMessages batch.slotId).Nodup

instance (c : SlotWorkCoordinator) (s : CoordinatorState) (op : CoordinatorOp) :
    Decidable (NamesClaimed c s op) := by unfold NamesClaimed; infer_instance

instance (c : SlotWorkCoordinator) (h : DeliveryHistory) (op : CoordinatorOp) :
    Decidable (SnapshotsComplete c h op) := by unfold SnapshotsComplete; infer_instance

instance (c : SlotWorkCoordinator) (s : CoordinatorState) (op : CoordinatorOp) :
    Decidable (FailsDistinct c s op) := by unfold FailsDistinct; infer_instance

/-- What one operation owes to the history of the deliveries. -/
structure DeliveryLaw (c : SlotWorkCoordinator) (h : DeliveryHistory) (op : CoordinatorOp) :
    Prop where
  exhausted : ∀ batch classification, op = .failBatch batch classification → ∀ m,
    m ∈ (c.failBatch h.state batch classification).result.exhaustedMessageIds ↔
      c.isCurrentBatch h.state batch = true ∧ m ∈ h.state.claimedMessages batch.slotId ∧
        maxMessageDeliveryFailures ≤ (h.step c op).failures batch.slotId m
  paused : ∀ batch classification, op = .failBatch batch classification →
    (c.failBatch h.state batch classification).result.exhaustedMessageIds ≠ [] →
      ((c.step h.state op).coreAt batch.slotId).paused = true
  halted : ∀ slotId, op = .next slotId → h.halted slotId = true →
    ∀ batch, (c.next h.state slotId).result ≠ .claim batch
  spent : ∀ slotId m,
    h.state.failureCount slotId m < (c.step h.state op).failureCount slotId m →
      ∃ batch classification, op = .failBatch batch classification ∧ batch.slotId = slotId ∧
        m ∈ h.state.claimedMessages slotId

section Counting

theorem countFailure_fold {ids : List String} (hids : ids.Nodup) (core : SlotCore)
    (exhausted : List String) :
    (∀ m, ((ids.foldl SlotCore.countFailure (core, exhausted)).1.deliveryFailureCounts.lookup
        m).getD 0 =
      if m ∈ ids then min ((core.deliveryFailureCounts.lookup m).getD 0 + 1) u8Max
      else (core.deliveryFailureCounts.lookup m).getD 0) ∧
    (ids.foldl SlotCore.countFailure (core, exhausted)).2 =
      exhausted ++ ids.filter fun m ↦ decide (maxMessageDeliveryFailures ≤
        min ((core.deliveryFailureCounts.lookup m).getD 0 + 1) u8Max) := by
  induction ids generalizing core exhausted with
  | nil => simp
  | cons id ids ih =>
      obtain ⟨hid, hrest⟩ := List.nodup_cons.mp hids
      rw [List.foldl_cons]
      obtain ⟨hcounts, hexhausted⟩ := ih hrest (SlotCore.countFailure (core, exhausted) id).1
        (SlotCore.countFailure (core, exhausted) id).2
      have hlookup : ∀ m,
          ((SlotCore.countFailure (core, exhausted) id).1.deliveryFailureCounts.lookup m).getD 0 =
          if m = id then min ((core.deliveryFailureCounts.lookup id).getD 0 + 1) u8Max
          else (core.deliveryFailureCounts.lookup m).getD 0 := by
        intro m
        simp only [SlotCore.countFailure, Table.lookup_insert_eq]
        split <;> rfl
      constructor
      · intro m
        rw [hcounts, hlookup]
        by_cases heq : m = id
        · subst heq
          simp [hid]
        · simp [heq]
      · rw [hexhausted]
        have hsame : ids.filter (fun m ↦ decide (maxMessageDeliveryFailures ≤
              min (((SlotCore.countFailure (core, exhausted)
                id).1.deliveryFailureCounts.lookup m).getD 0 + 1) u8Max)) =
            ids.filter fun m ↦ decide (maxMessageDeliveryFailures ≤
              min ((core.deliveryFailureCounts.lookup m).getD 0 + 1) u8Max) := by
          apply List.filter_congr
          intro m hm
          have hne : m ≠ id := fun heq ↦ hid (heq ▸ hm)
          rw [hlookup, if_neg hne]
        rw [hsame]
        simp only [SlotCore.countFailure, List.filter_cons, decide_eq_true_eq]
        split <;> simp

theorem paused_countFailure_fold (ids : List String) (acc : SlotCore × List String) :
    (ids.foldl SlotCore.countFailure acc).1.paused = acc.1.paused := by
  induction ids generalizing acc with
  | nil => rfl
  | cons id ids ih => exact (ih _).trans rfl

end Counting

section Budget

variable {c : SlotWorkCoordinator} {s : CoordinatorState} {slotId : String}

def SlotCore.budget (core : SlotCore) : Bool × Table String ℕ :=
  (core.paused, core.deliveryFailureCounts)

def CoordinatorState.budgetAt (s : CoordinatorState) (slotId : String) : Bool × Table String ℕ :=
  (s.coreAt slotId).budget

def CoordinatorOp.leavesBudget : CoordinatorOp → Bool
  | .commitEnqueue _ _ _ | .reconcileMailboxSnapshot _ _ _ _ _ | .completeBatchWithAck _
  | .failBatch _ _ | .cancelBatch _ _ | .interruptBatch _ _ _ | .pauseSlot _ => false
  | _ => true

theorem budgetAt_step {op : CoordinatorOp} (h : op.leavesBudget = true) :
    (c.step s op).budgetAt slotId = s.budgetAt slotId := by
  by_cases hset : op.setsConstraint = true
  · obtain ⟨constraint, hcore⟩ := coreAt_setsConstraint (c := c) (s := s) hset slotId
    exact (congrArg SlotCore.budget hcore).trans rfl
  cases op with
  | setRuntimeConstraint _ _ | beginRuntimeRestart _ _ | abortRuntimeRestart _ _ | stop =>
      exact absurd rfl hset
  | requestMcpRefresh other fingerprint =>
      change (requestMcpRefresh s other fingerprint).state.budgetAt slotId = _
      obtain ⟨-, hkept⟩ | ⟨-, hcore⟩ := coreAt_requestMcpRefresh (s := s) other fingerprint
      · rw [CoordinatorState.budgetAt, hkept]
        rfl
      · rw [CoordinatorState.budgetAt, hcore]
        split <;> rfl
  | deferMcpRefresh other fingerprint =>
      change (deferMcpRefresh s other fingerprint).state.budgetAt slotId = _
      rw [CoordinatorState.budgetAt, coreAt_deferMcpRefresh]
      split <;> rfl
  | claimPendingMcpRefresh other =>
      change (claimPendingMcpRefresh s other).state.budgetAt slotId = _
      obtain ⟨-, hsame, -⟩ | ⟨_, -, -, -, -, hcore⟩ := coreAt_claimPendingMcpRefresh (s := s) other
      · rw [hsame]
      · rw [CoordinatorState.budgetAt, hcore]
        split <;> rfl
  | completeMcpRefresh other fingerprint =>
      change (completeMcpRefresh s other fingerprint).state.budgetAt slotId = _
      rw [CoordinatorState.budgetAt, coreAt_completeMcpRefresh]
      split <;> rfl
  | releaseMcpRefresh other fingerprint =>
      change (releaseMcpRefresh s other fingerprint).state.budgetAt slotId = _
      rw [CoordinatorState.budgetAt, coreAt_releaseMcpRefresh, SlotCore.releaseRefresh]
      split
      · split <;> rfl
      · rfl
  | settleMcpRefreshClaim other fingerprint =>
      change (settleMcpRefreshClaim s other fingerprint).state.budgetAt slotId = _
      rw [CoordinatorState.budgetAt, coreAt_settleMcpRefreshClaim, SlotCore.settleRefresh]
      split
      · split <;> rfl
      · rfl
  | commitEnqueue lease messageId now => cases h
  | reconcileMailboxSnapshot other unread role stale now => cases h
  | completeBatchWithAck batch => cases h
  | failBatch batch classification => cases h
  | cancelBatch batch classification => cases h
  | interruptBatch batch reason messageId => cases h
  | pauseSlot other => cases h
  | _ => exact congrArg SlotCore.budget (coreKept_step rfl slotId)

theorem not_current_of_stale {batch : WorkBatch} {terminal : WorkIntentState}
    {delivery : DeliveryOutcome}
    (h : (c.terminalizeBatch s batch terminal delivery).result = ⟨.staleOwner, []⟩) :
    c.isCurrentBatch s batch = false := by
  cases hcurrent : c.isCurrentBatch s batch with
  | false => rfl
  | true =>
      obtain ⟨_, active, hactive, _⟩ := isCurrentBatch_iff.mp hcurrent
      obtain ⟨slot, hslot, _⟩ := slot_of_activeBatch hactive
      simp [terminalizeBatch, hslot, hcurrent] at h

theorem failBatch_cases (batch : WorkBatch) (classification : String) :
    (c.isCurrentBatch s batch = false ∧ (c.failBatch s batch classification).state = s ∧
        (c.failBatch s batch classification).result.exhaustedMessageIds = []) ∨
      c.isCurrentBatch s batch = true ∧
        (c.failBatch s batch classification).result.exhaustedMessageIds =
          ((s.coreAt batch.slotId).countFailures batch.mailboxMessageIds).2 ∧
        ∀ other, (c.failBatch s batch classification).state.coreAt other =
          if other = batch.slotId then
            ((s.coreAt other).countFailures batch.mailboxMessageIds).1
          else s.coreAt other := by
  obtain ⟨hstate, hresult⟩ | ⟨slot, hslot, hcurrent, hresult, hcore⟩ :=
    coreAt_terminalizeBatch (c := c) (s := s) batch (.failed classification) .failed
  · refine Or.inl ⟨not_current_of_stale hresult, hstate, ?_⟩
    rw [failBatch, hresult]
  · have hcount := releaseSlot_failed slot batch
    rw [← coreAt_of_lookup hslot] at hcount
    refine Or.inr ⟨hcurrent, ?_, fun other ↦ ?_⟩
    · rw [failBatch, hresult, ← hcount]
    · rw [failBatch, hcore]
      split
      · next heq => rw [heq, ← hcount]
      · rfl

theorem failureCount_budgetAt (messageId : String) :
    s.failureCount slotId messageId = ((s.budgetAt slotId).2.lookup messageId).getD 0 := rfl

theorem coreAt_cancelBatch (batch : WorkBatch) (classification : String) :
    (c.isCurrentBatch s batch = false ∧ (c.cancelBatch s batch classification).state = s) ∨
      c.isCurrentBatch s batch = true ∧
        ∀ other, (c.cancelBatch s batch classification).state.coreAt other =
          if other = batch.slotId then (s.coreAt other).clearFailures batch.mailboxMessageIds
          else s.coreAt other := by
  obtain ⟨hstate, hresult⟩ | ⟨slot, hslot, hcurrent, hresult, hcore⟩ :=
    coreAt_terminalizeBatch (c := c) (s := s) batch (.cancelled classification) .notFailed
  · exact Or.inl ⟨not_current_of_stale hresult, hstate⟩
  · refine Or.inr ⟨hcurrent, fun other ↦ ?_⟩
    rw [cancelBatch, hcore, core_releaseSlot_notFailed, ← coreAt_of_lookup hslot]
    split
    · next heq => rw [heq]
    · rfl

end Budget

structure Counted (h : DeliveryHistory) : Prop where
  counts : ∀ slotId m, h.missed slotId m = false →
    h.state.failureCount slotId m = min (h.failures slotId m) u8Max
  halted : ∀ slotId, h.halted slotId = true → (h.state.coreAt slotId).paused = true

section Count

variable {c : SlotWorkCoordinator} {h : DeliveryHistory} {s' : CoordinatorState}
  {op : CoordinatorOp}

theorem counted_init : Counted .init where
  counts _ _ _ := rfl
  halted _ hhalted := by cases hhalted

theorem Counted.keep (hcounted : Counted h)
    (hbudget : ∀ slotId, s'.budgetAt slotId = h.state.budgetAt slotId) :
    Counted { h with state := s' } where
  counts slotId m hm := by
    rw [failureCount_budgetAt, hbudget]
    exact hcounted.counts slotId m hm
  halted slotId hslot := by
    have hpaused := congrArg Prod.fst (hbudget slotId)
    exact hpaused.trans (hcounted.halted slotId hslot)

theorem Counted.clear (hcounted : Counted h) {slotId : String} {ids : List String}
    (hcore : ∀ other, s'.coreAt other =
      if other = slotId then (h.state.coreAt other).clearFailures ids
      else h.state.coreAt other) : Counted { h.clear slotId ids with state := s' } where
  counts other m hm := by
    simp only [DeliveryHistory.clear] at hm ⊢
    rw [CoordinatorState.failureCount, hcore]
    by_cases hslot : other = slotId
    · by_cases hmem : m ∈ ids
      · simp [hslot, hmem, SlotCore.clearFailures]
      · simp only [hslot, hmem, and_false, if_false, if_true, SlotCore.clearFailures,
          Table.lookup_eraseAll] at hm ⊢
        exact hcounted.counts slotId m hm
    · simp only [hslot, false_and, if_false] at hm ⊢
      exact hcounted.counts other m hm
  halted other hhalted := by
    have hpaused := hcounted.halted other hhalted
    change (s'.coreAt other).paused = true
    rw [hcore]
    split <;> exact hpaused

theorem Counted.retain (hcounted : Counted h) {slotId : String} {unread : List String}
    (hcore : ∀ other, s'.coreAt other =
      if other = slotId then (h.state.coreAt other).retainFailures unread
      else h.state.coreAt other) :
    Counted { h with
      state := s'
      missed := fun other m ↦ h.missed other m || decide (other = slotId ∧ m ∉ unread) } where
  counts other m hm := by
    simp only [Bool.or_eq_false_iff, decide_eq_false_iff_not, not_and, not_not] at hm
    rw [CoordinatorState.failureCount, hcore, ← hcounted.counts other m hm.1]
    split
    · next hslot =>
        have hmem := hm.2 hslot
        rw [SlotCore.retainFailures, Table.lookup_retain, CoordinatorState.failureCount]
        cases (h.state.coreAt other).deliveryFailureCounts.lookup m with
        | none => rfl
        | some count => simp [Option.filter, hmem]
    · rfl
  halted other hhalted := by
    have hpaused := hcounted.halted other hhalted
    change (s'.coreAt other).paused = true
    rw [hcore]
    split <;> exact hpaused

theorem Counted.resume (hcounted : Counted h) {slotId : String} {source : WorkSource}
    (hcore : ∀ other, s'.coreAt other =
      if other = slotId then (h.state.coreAt other).resume source else h.state.coreAt other)
    {halted : String → Bool}
    (hhalted : ∀ other, halted other = true → h.halted other = true ∧
      (other = slotId → source.resumesPausedSlot = false)) :
    Counted { h with state := s', halted := halted } where
  counts other m hm := by
    rw [CoordinatorState.failureCount, hcore, ← hcounted.counts other m hm]
    split <;> rfl
  halted other hother := by
    obtain ⟨hold, hsource⟩ := hhalted other hother
    have hpaused := hcounted.halted other hold
    change (s'.coreAt other).paused = true
    rw [hcore]
    split
    · next hslot => simp [SlotCore.resume, hpaused, hsource hslot]
    · exact hpaused

theorem Counted.fail (hcounted : Counted h) {slotId : String} {ids : List String}
    (hids : ids.Nodup)
    (hcore : ∀ other, s'.coreAt other =
      if other = slotId then ((h.state.coreAt other).countFailures ids).1
      else h.state.coreAt other)
    {halted : String → Bool}
    (hhalted : ∀ other, halted other = true → h.halted other = true ∨
      other = slotId ∧ ((h.state.coreAt slotId).countFailures ids).2 ≠ []) :
    Counted { h.fail slotId ids with state := s', halted := halted } where
  counts other m hm := by
    have hold := hcounted.counts other m hm
    rw [CoordinatorState.failureCount] at hold
    rw [CoordinatorState.failureCount, hcore]
    simp only [DeliveryHistory.fail]
    by_cases hslot : other = slotId
    · have hfold := (countFailure_fold hids (h.state.coreAt other) []).1 m
      rw [if_pos hslot]
      change ((ids.foldl SlotCore.countFailure
        (h.state.coreAt other, [])).1.deliveryFailureCounts.lookup m).getD 0 = _
      rw [hfold, hold]
      by_cases hmem : m ∈ ids
      · rw [if_pos hmem, if_pos ⟨hslot, hmem⟩]
        omega
      · rw [if_neg hmem, if_neg fun hboth ↦ hmem hboth.2]
    · rw [if_neg hslot, if_neg fun hboth ↦ hslot hboth.1, hold]
  halted other hother := by
    change (s'.coreAt other).paused = true
    have hpaused : ∀ core : SlotCore, (core.countFailures ids).1.paused =
        (core.paused || !(core.countFailures ids).2.isEmpty) := by
      intro core
      have hfold := paused_countFailure_fold ids (core, [])
      simp only [SlotCore.countFailures]
      rw [hfold]
    obtain hold | ⟨rfl, hexhausted⟩ := hhalted other hother
    · rw [hcore]
      split
      · rw [hpaused, hcounted.halted other hold, Bool.true_or]
      · exact hcounted.halted other hold
    · rw [hcore, if_pos rfl, hpaused]
      simp [hexhausted]

theorem Counted.ignored (hcounted : Counted h) (hnote : h.note c op = h)
    (hstate : c.step h.state op = h.state) : Counted (h.step c op) := by
  rw [DeliveryHistory.step, hnote, hstate]
  exact hcounted

theorem carriedMessages_of_active {s : CoordinatorState} {slotId : String} {active : ActiveBatch}
    (hactive : s.activeBatch slotId = some active) :
    s.carriedMessages slotId = ackMessages active.batch := by
  rw [CoordinatorState.carriedMessages, hactive]
  rfl

theorem counted_complete (hcounted : Counted h) (batch : WorkBatch) :
    Counted (h.step c (.completeBatchWithAck batch)) := by
  obtain ⟨hstate, hresult⟩ | ⟨active, hactive, hcurrent, -, hcore⟩ :=
    coreAt_completeBatchWithAck (c := c) (s := h.state) batch
  · have hstale : c.isCurrentBatch h.state batch = false := by
      cases hcurrent : c.isCurrentBatch h.state batch with
      | false => rfl
      | true =>
          obtain ⟨_, active, hactive, _⟩ := isCurrentBatch_iff.mp hcurrent
          simp [completeBatchWithAck, hactive, hcurrent] at hresult
    exact hcounted.ignored (by simp [DeliveryHistory.note, hstale]) hstate
  · rw [DeliveryHistory.step, DeliveryHistory.note, if_pos hcurrent,
      carriedMessages_of_active hactive]
    exact hcounted.clear hcore

theorem counted_cancel (hcounted : Counted h) (batch : WorkBatch) (classification : String)
    (hnames : NamesClaimed c h.state (.cancelBatch batch classification)) :
    Counted (h.step c (.cancelBatch batch classification)) := by
  obtain ⟨hstale, hstate⟩ | ⟨hcurrent, hcore⟩ :=
    coreAt_cancelBatch (c := c) (s := h.state) batch classification
  · exact hcounted.ignored (by simp [DeliveryHistory.note, hstale]) hstate
  · rw [DeliveryHistory.step, DeliveryHistory.note, if_pos hcurrent,
      ← hnames batch rfl hcurrent]
    exact hcounted.clear hcore

theorem counted_interrupt (hcounted : Counted h) (batch : WorkBatch) (reason : Option String)
    (messageId : String)
    (hnames : NamesClaimed c h.state (.interruptBatch batch reason messageId)) :
    Counted (h.step c (.interruptBatch batch reason messageId)) := by
  obtain ⟨hstate, hresult⟩ | ⟨hcurrent, -, hcore⟩ :=
    coreAt_interruptBatch (c := c) (s := h.state) batch reason messageId
  · have hstale : c.isCurrentBatch h.state batch = false := by
      cases hcurrent : c.isCurrentBatch h.state batch with
      | false => rfl
      | true => simp [interruptBatch, hcurrent] at hresult
    exact hcounted.ignored (by simp [DeliveryHistory.note, hstale]) hstate
  · rw [DeliveryHistory.step, DeliveryHistory.note, if_pos hcurrent,
      ← hnames batch rfl hcurrent]
    exact hcounted.clear hcore

theorem counted_fail (hcounted : Counted h) (batch : WorkBatch) (classification : String)
    (hnames : NamesClaimed c h.state (.failBatch batch classification))
    (hdistinct : FailsDistinct c h.state (.failBatch batch classification)) :
    Counted (h.step c (.failBatch batch classification)) := by
  obtain ⟨hstale, hstate, -⟩ | ⟨hcurrent, hexhausted, hcore⟩ :=
    failBatch_cases (c := c) (s := h.state) batch classification
  · exact hcounted.ignored (by simp [DeliveryHistory.note, hstale]) hstate
  · have hids := hdistinct batch rfl hcurrent
    have hclaimed := hnames batch rfl hcurrent
    rw [DeliveryHistory.step, DeliveryHistory.note, if_pos hcurrent, hexhausted]
    rw [hclaimed] at hcore ⊢
    refine hcounted.fail hids hcore fun other hother ↦ ?_
    rw [Bool.or_eq_true, decide_eq_true_eq] at hother
    exact hother

theorem counted_commit (hcounted : Counted h) (lease : EnqueueLease) (messageId : Option String)
    (now : ℤ) : Counted (h.step c (.commitEnqueue lease messageId now)) := by
  obtain ⟨hstate, error, hresult⟩ | ⟨⟨commit, hresult⟩, hcore⟩ :=
    coreAt_commitEnqueue (c := c) (s := h.state) lease messageId now
  · exact hcounted.ignored (by simp [DeliveryHistory.note, hresult, Except.isOk, Except.toBool])
      hstate
  · have hok : (c.commitEnqueue h.state lease messageId now).result.isOk = true := by
      rw [hresult]
      rfl
    rw [DeliveryHistory.step, DeliveryHistory.note, hok, Bool.true_and]
    cases hsource : lease.source.resumesPausedSlot with
    | true =>
        refine hcounted.resume hcore fun other hother ↦ ?_
        rw [if_pos rfl, Bool.and_eq_true, decide_eq_true_eq] at hother
        exact ⟨hother.1, fun heq ↦ absurd heq hother.2⟩
    | false => exact hcounted.resume hcore fun other hother ↦ ⟨hother, fun _ ↦ hsource⟩

theorem counted_pause (hcounted : Counted h) (slotId : String) :
    Counted (h.step c (.pauseSlot slotId)) where
  counts other m hm := by
    change (pauseSlot h.state slotId).state.failureCount other m = min (h.failures other m) u8Max
    rw [← hcounted.counts other m hm, CoordinatorState.failureCount, coreAt_pauseSlot]
    split <;> rfl
  halted other hhalted := by
    have hpaused := hcounted.halted other hhalted
    change ((pauseSlot h.state slotId).state.coreAt other).paused = true
    rw [coreAt_pauseSlot]
    split
    · rfl
    · exact hpaused

theorem counted_step (hcounted : Counted h) (hnames : NamesClaimed c h.state op)
    (hdistinct : FailsDistinct c h.state op) : Counted (h.step c op) := by
  cases op with
  | commitEnqueue lease messageId now => exact counted_commit hcounted lease messageId now
  | reconcileMailboxSnapshot slotId unread role stale now =>
      exact hcounted.retain (coreAt_reconcile slotId unread role stale now)
  | completeBatchWithAck batch => exact counted_complete hcounted batch
  | failBatch batch classification =>
      exact counted_fail hcounted batch classification hnames hdistinct
  | cancelBatch batch classification => exact counted_cancel hcounted batch classification hnames
  | interruptBatch batch reason messageId =>
      exact counted_interrupt hcounted batch reason messageId hnames
  | pauseSlot slotId => exact counted_pause hcounted slotId
  | _ => exact hcounted.keep fun slotId ↦ budgetAt_step rfl

theorem failureCount_step (hnames : NamesClaimed c h.state op)
    (hdistinct : FailsDistinct c h.state op) {slotId m : String}
    (hspent : h.state.failureCount slotId m < (c.step h.state op).failureCount slotId m) :
    ∃ batch classification, op = .failBatch batch classification ∧ batch.slotId = slotId ∧
      m ∈ h.state.claimedMessages slotId := by
  have hcleared : ∀ {ids : List String} {other : String} {s' : CoordinatorState},
      (∀ slotId, s'.coreAt slotId =
        if slotId = other then (h.state.coreAt slotId).clearFailures ids
        else h.state.coreAt slotId) →
      s'.failureCount slotId m ≤ h.state.failureCount slotId m := by
    intro ids other s' hcore
    rw [CoordinatorState.failureCount, hcore]
    split
    · rw [SlotCore.clearFailures, Table.lookup_eraseAll]
      split
      · exact Nat.zero_le _
      · exact le_rfl
    · exact le_rfl
  have hsame : (c.step h.state op).failureCount slotId m ≤ h.state.failureCount slotId m → False :=
    fun hle ↦ absurd hspent (not_lt.mpr hle)
  cases op with
  | commitEnqueue lease messageId now =>
      obtain ⟨hstate, -⟩ | ⟨-, hcore⟩ :=
        coreAt_commitEnqueue (c := c) (s := h.state) lease messageId now
      · exact (hsame (congrArg (fun s ↦ CoordinatorState.failureCount s slotId m) hstate).le).elim
      · refine (hsame ?_).elim
        change (c.commitEnqueue h.state lease messageId now).state.failureCount slotId m ≤ _
        rw [CoordinatorState.failureCount, hcore]
        split <;> exact le_rfl
  | reconcileMailboxSnapshot other unread role stale now =>
      refine (hsame ?_).elim
      change (c.reconcileMailboxSnapshot h.state other unread role stale now).state.failureCount
        slotId m ≤ _
      rw [CoordinatorState.failureCount, coreAt_reconcile, CoordinatorState.failureCount]
      split
      · rw [SlotCore.retainFailures, Table.lookup_retain]
        cases (h.state.coreAt slotId).deliveryFailureCounts.lookup m with
        | none => exact le_rfl
        | some count =>
            rw [Option.filter]
            split
            · exact le_rfl
            · exact Nat.zero_le _
      · exact le_rfl
  | completeBatchWithAck batch =>
      obtain ⟨hstate, -⟩ | ⟨active, -, -, -, hcore⟩ :=
        coreAt_completeBatchWithAck (c := c) (s := h.state) batch
      · exact (hsame (congrArg (fun s ↦ CoordinatorState.failureCount s slotId m) hstate).le).elim
      · exact (hsame (hcleared hcore)).elim
  | failBatch batch classification =>
      obtain ⟨-, hstate, -⟩ | ⟨hcurrent, -, hcore⟩ :=
        failBatch_cases (c := c) (s := h.state) batch classification
      · exact (hsame (congrArg (fun s ↦ CoordinatorState.failureCount s slotId m) hstate).le).elim
      · have hids := hdistinct batch rfl hcurrent
        have hclaimed := hnames batch rfl hcurrent
        rw [hclaimed] at hcore
        by_contra hnone
        refine hsame ?_
        change (c.failBatch h.state batch classification).state.failureCount slotId m ≤ _
        rw [CoordinatorState.failureCount, hcore]
        split
        · next hslot =>
            have hout : m ∉ h.state.claimedMessages batch.slotId := fun hmem ↦
              hnone ⟨batch, classification, rfl, hslot.symm, hslot ▸ hmem⟩
            have hfold := (countFailure_fold hids (h.state.coreAt slotId) []).1 m
            rw [if_neg hout] at hfold
            exact hfold.le
        · exact le_rfl
  | cancelBatch batch classification =>
      obtain ⟨-, hstate⟩ | ⟨-, hcore⟩ :=
        coreAt_cancelBatch (c := c) (s := h.state) batch classification
      · exact (hsame (congrArg (fun s ↦ CoordinatorState.failureCount s slotId m) hstate).le).elim
      · exact (hsame (hcleared hcore)).elim
  | interruptBatch batch reason messageId =>
      obtain ⟨hstate, -⟩ | ⟨-, -, hcore⟩ :=
        coreAt_interruptBatch (c := c) (s := h.state) batch reason messageId
      · exact (hsame (congrArg (fun s ↦ CoordinatorState.failureCount s slotId m) hstate).le).elim
      · exact (hsame (hcleared hcore)).elim
  | pauseSlot other =>
      refine (hsame ?_).elim
      change (pauseSlot h.state other).state.failureCount slotId m ≤ _
      rw [CoordinatorState.failureCount, coreAt_pauseSlot]
      split <;> exact le_rfl
  | _ =>
      refine (hsame ?_).elim
      rw [failureCount_budgetAt, budgetAt_step rfl]
      exact le_rfl

theorem law_step (hcounted : Counted h) (hnames : NamesClaimed c h.state op)
    (hcomplete : SnapshotsComplete c h op) (hdistinct : FailsDistinct c h.state op) :
    DeliveryLaw c h op where
  exhausted := by
    rintro batch classification rfl m
    obtain ⟨hstale, -, hnone⟩ | ⟨hcurrent, hexhausted, -⟩ :=
      failBatch_cases (c := c) (s := h.state) batch classification
    · simp [hstale, hnone]
    · have hids := hdistinct batch rfl hcurrent
      have hclaimed := hnames batch rfl hcurrent
      have hfold := (countFailure_fold hids (h.state.coreAt batch.slotId) []).2
      rw [hexhausted, hclaimed]
      change m ∈ (List.foldl SlotCore.countFailure (h.state.coreAt batch.slotId, []) _).2 ↔ _
      rw [hfold, List.nil_append, List.mem_filter, decide_eq_true_eq]
      rw [and_iff_right hcurrent]
      refine and_congr_right fun hmem ↦ ?_
      have hcount := hcounted.counts batch.slotId m (hcomplete batch rfl hcurrent m hmem)
      rw [CoordinatorState.failureCount] at hcount
      have hfailures : (h.step c (.failBatch batch classification)).failures batch.slotId m =
          h.failures batch.slotId m + 1 := by
        rw [DeliveryHistory.step, DeliveryHistory.note, if_pos hcurrent]
        exact if_pos ⟨rfl, hmem⟩
      rw [hcount, hfailures, maxMessageDeliveryFailures, u8Max]
      omega
  paused := by
    rintro batch classification rfl hexhausted
    obtain ⟨-, -, hnone⟩ | ⟨hcurrent, hresult, hcore⟩ :=
      failBatch_cases (c := c) (s := h.state) batch classification
    · exact absurd hnone hexhausted
    · have hstep := counted_step hcounted hnames hdistinct
      refine hstep.halted batch.slotId ?_
      rw [DeliveryHistory.step, DeliveryHistory.note, if_pos hcurrent]
      simp [hexhausted]
  halted := by
    rintro slotId rfl hhalted batch hclaim
    obtain ⟨slot, hslot, -, -, hrunning, -⟩ := next_claim hclaim
    have hpaused := hcounted.halted slotId hhalted
    rw [coreAt_of_lookup hslot] at hpaused
    exact absurd (hpaused.symm.trans hrunning) (by decide)
  spent _ _ hspent := failureCount_step hnames hdistinct hspent

end Count

section Runs

/-- The row of a welcome message is found unread before the message is committed: two intents carry
it, and one batch claims both. -/
def claimTwins : List CoordinatorOp :=
  [.acquireEnqueue ⟨fun _ ↦ ⟨none, false, false⟩, fun _ ↦ ⟨none, false, false⟩⟩
      ⟨"s", .teammate, .spawnWelcome, .background⟩,
    .reconcileMailboxSnapshot "s" ["m"] .teammate [] 0,
    .commitEnqueue ⟨"", "g", "s", .teammate, .spawnWelcome, none⟩ (some "m") 0,
    .setRuntimeConstraint "s" .ready,
    .next "s"]

def twins : WorkBatch where
  batchId := "|||"
  sessionGeneration := "g"
  slotId := "s"
  intentIds := ["|", "||"]
  mailboxMessageIds := ["m", "m"]
  observedMessageIds := []
  highestPriority := .background
  teamRunIds := []
  operationId := 1
  isCommand := false

def retried : WorkBatch :=
  { twins with
    batchId := "|||||", intentIds := ["||||"], mailboxMessageIds := ["m"], operationId := 2 }

def failTwins : List CoordinatorOp :=
  claimTwins ++ [.failBatch twins "timeout", .reconcileMailboxSnapshot "s" ["m"] .teammate [] 0,
    .next "s"]

end Runs

end Zaowutai.Team
