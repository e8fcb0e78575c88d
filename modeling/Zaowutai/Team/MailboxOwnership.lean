import Zaowutai.Team.SoleOwner

/-!
# Mailbox messages between the enqueue flows and the event loop

Any number of enqueue flows write rows to the mailbox of one slot while its
event loop recovers, claims and completes them.  Every flow is a sequence of
steps with awaits in between, so that a run may interleave the steps of all
flows in any order.
-/

namespace Zaowutai.Team

open Zaowutai.Lib SlotWorkCoordinator

/-- The rows of a slot; a row is written once and never becomes unread again. -/
structure Mailbox where
  written : List String
  read : List String
  nodup : written.Nodup

namespace Mailbox

variable (mailbox : Mailbox)

/-- Write a row; the insert of a row that exists fails. -/
def write (messageId : String) : Option Mailbox :=
  if h : messageId ∈ mailbox.written then none
  else some
    { mailbox with
      written := mailbox.written ++ [messageId]
      nodup := List.concat_eq_append ▸ mailbox.nodup.concat h }

def markRead (messageIds : List String) : Mailbox :=
  { mailbox with read := mailbox.read ++ messageIds }

def peekUnread : List String := mailbox.written.filter (· ∉ mailbox.read)

def peekUnreadByIds (messageIds : List String) : List String :=
  mailbox.peekUnread.filter (· ∈ messageIds)

end Mailbox

def takeRows : List String → List String → List String
  | _, [] => []
  | rows, messageId :: messageIds =>
      if messageId ∈ rows then messageId :: takeRows (rows.erase messageId) messageIds
      else takeRows rows messageIds

inductive EnqueueFlow
  | acquired (lease : EnqueueLease)
  | written (lease : EnqueueLease) (messageId : String)
  | rejected (messageId : String)

inductive LoopPhase
  | idle
  | candidates (staleCandidates : List String)
  | peeked (staleCandidates unread : List String)
  | reconciled
  | claimed (batch : WorkBatch)
  | executing (batch : WorkBatch)
  | acknowledging (messageIds : List String)

namespace LoopPhase

def batch? : LoopPhase → Option WorkBatch
  | claimed batch | executing batch => some batch
  | _ => none

def unacknowledged : LoopPhase → List String
  | acknowledging messageIds => messageIds
  | _ => []

end LoopPhase

structure MailboxSession where
  state : CoordinatorState
  mailbox : Mailbox
  flows : Table ℕ EnqueueFlow
  phase : LoopPhase
  /-- The batches whose completion was committed, oldest first. -/
  completed : List WorkBatch

inductive SessionAction
  | acquire (flow : ℕ) (answers : PortAnswers) (role : TeamRunTargetRole) (source : WorkSource)
      (binding : CausalBinding)
  | write (flow : ℕ) (messageId : String)
  | commit (flow : ℕ) (now : ℤ)
  | compensate (flow : ℕ)
  | setRuntimeConstraint (constraint : RuntimeConstraint)
  | readCandidates
  | peekUnread
  | reconcile (role : TeamRunTargetRole) (now : ℤ)
  | next
  | reread
  | giveBack
  | markStarted (turnId : String) (now : ℤ)
  | complete
  | fail (classification : String)
  | acknowledge
  | readElsewhere (messageIds : List String)
  | rehash (rank : String → ℕ)

namespace MailboxSession

def initial (mailbox : Mailbox) : MailboxSession := ⟨.empty, mailbox, ∅, .idle, []⟩

variable (c : SlotWorkCoordinator) (slotId : String) (x : MailboxSession)

def acquire (flow : ℕ) (answers : PortAnswers) (role : TeamRunTargetRole) (source : WorkSource)
    (binding : CausalBinding) : MailboxSession :=
  match x.flows.lookup flow with
  | some _ => x
  | none =>
      let outcome := c.acquireEnqueue x.state answers ⟨slotId, role, source, binding⟩
      match outcome.result with
      | .ok lease =>
          { x with state := outcome.state, flows := x.flows.insert flow (.acquired lease) }
      | .error _ => { x with state := outcome.state }

def write (flow : ℕ) (messageId : String) : MailboxSession :=
  match x.flows.lookup flow with
  | some (.acquired lease) =>
      match x.mailbox.write messageId with
      | some mailbox =>
          { x with mailbox := mailbox, flows := x.flows.insert flow (.written lease messageId) }
      | none =>
          { x with state := (c.abortEnqueue x.state lease).state, flows := x.flows.erase flow }
  | _ => x

/-- `commit_persisted_enqueue`: a rejected commit releases the lease and then settles the row. -/
def commit (flow : ℕ) (now : ℤ) : MailboxSession :=
  match x.flows.lookup flow with
  | some (.written lease messageId) =>
      let outcome := c.commitEnqueue x.state lease (some messageId) now
      match outcome.result with
      | .ok _ => { x with state := outcome.state, flows := x.flows.erase flow }
      | .error _ =>
          { x with
            state := (c.abortEnqueue outcome.state lease).state
            flows := x.flows.insert flow (.rejected messageId) }
  | _ => x

def compensate (flow : ℕ) : MailboxSession :=
  match x.flows.lookup flow with
  | some (.rejected messageId) =>
      { x with mailbox := x.mailbox.markRead [messageId], flows := x.flows.erase flow }
  | _ => x

def claimNext : MailboxSession :=
  let outcome := c.next x.state slotId
  match outcome.result with
  | .claim batch => { x with state := outcome.state, phase := .claimed batch }
  | _ => { x with state := outcome.state, phase := .idle }

/-- Every claimed row must still be unread, else the claim is given back. -/
def reread (batch : WorkBatch) : MailboxSession :=
  let rows := x.mailbox.peekUnreadByIds batch.mailboxMessageIds
  if (takeRows rows batch.mailboxMessageIds).length ≠ batch.mailboxMessageIds.length then
    { x with state := (c.retryStart x.state batch).state, phase := .idle }
  else { x with phase := .executing batch }

def markStarted (batch : WorkBatch) (turnId : String) (now : ℤ) : MailboxSession :=
  let outcome := c.markStarted x.state batch turnId now
  match outcome.result with
  | .cancelImmediately =>
      let s := (takeInterruptMetadata outcome.state batch.batchId).state
      { x with state := (c.cancelBatch s batch "late_start_cancelled").state }
  | _ => { x with state := outcome.state }

def complete (batch : WorkBatch) : MailboxSession :=
  if isBatchCancelled x.state batch then { x with phase := .idle }
  else
    let outcome := c.completeBatchWithAck x.state batch
    if outcome.result.commitResult = .committed then
      { x with
        state := outcome.state
        phase := .acknowledging outcome.result.ackMessageIds
        completed := x.completed ++ [batch] }
    else { x with state := outcome.state, phase := .idle }

def fail (batch : WorkBatch) (classification : String) : MailboxSession :=
  if isBatchCancelled x.state batch then { x with phase := .idle }
  else
    let outcome := c.failBatch x.state batch classification
    { x with state := outcome.state, phase := .acknowledging outcome.result.exhaustedMessageIds }

def step : SessionAction → MailboxSession
  | .acquire flow answers role source binding => x.acquire c slotId flow answers role source binding
  | .write flow messageId => x.write c flow messageId
  | .commit flow now => x.commit c flow now
  | .compensate flow => x.compensate flow
  | .setRuntimeConstraint constraint =>
      { x with state :=
        (SlotWorkCoordinator.setRuntimeConstraint x.state slotId constraint).state }
  | .readCandidates => match x.phase with
      | .idle => { x with phase := .candidates (mailboxReconcileCandidates x.state slotId) }
      | _ => x
  | .peekUnread => match x.phase with
      | .candidates stale => { x with phase := .peeked stale x.mailbox.peekUnread }
      | _ => x
  | .reconcile role now => match x.phase with
      | .peeked stale unread =>
          { x with
            state := (c.reconcileMailboxSnapshot x.state slotId unread role stale now).state
            phase := .reconciled }
      | _ => x
  | .next => match x.phase with
      | .reconciled => x.claimNext c slotId
      | _ => x
  | .reread => match x.phase with
      | .claimed batch => x.reread c batch
      | _ => x
  | .giveBack => match x.phase.batch? with
      | some batch => { x with state := (c.retryStart x.state batch).state, phase := .idle }
      | none => x
  | .markStarted turnId now => match x.phase with
      | .executing batch => x.markStarted c batch turnId now
      | _ => x
  | .complete => match x.phase with
      | .executing batch => x.complete c batch
      | _ => x
  | .fail classification => match x.phase with
      | .executing batch => x.fail c batch classification
      | _ => x
  | .acknowledge => match x.phase with
      | .acknowledging messageIds =>
          { x with mailbox := x.mailbox.markRead messageIds, phase := .idle }
      | _ => x
  | .readElsewhere messageIds => { x with mailbox := x.mailbox.markRead messageIds }
  | .rehash rank => { x with state := SlotWorkCoordinator.rehash x.state rank }

end MailboxSession

section Rows

theorem takeRows_all {rows messageIds : List String} (hrows : rows.Nodup)
    (h : (takeRows rows messageIds).length = messageIds.length) :
    messageIds.Nodup ∧ ∀ m ∈ messageIds, m ∈ rows := by
  have hle : ∀ rows messageIds, (takeRows rows messageIds).length ≤ messageIds.length := by
    intro rows messageIds
    induction messageIds generalizing rows with
    | nil => exact le_rfl
    | cons m messageIds ih =>
        unfold takeRows
        split
        · exact Nat.succ_le_succ (ih _)
        · exact (ih _).trans (Nat.le_succ _)
  induction messageIds generalizing rows with
  | nil => exact ⟨List.nodup_nil, by simp⟩
  | cons m messageIds ih =>
      unfold takeRows at h
      split at h
      · next hmem =>
          obtain ⟨hnodup, hfound⟩ := ih (hrows.erase m) (Nat.succ.inj h)
          refine ⟨List.nodup_cons.mpr ⟨fun hm ↦ ?_, hnodup⟩, ?_⟩
          · exact absurd (hfound m hm) hrows.not_mem_erase
          · exact List.forall_mem_cons.mpr ⟨hmem, fun m' hm' ↦ List.mem_of_mem_erase (hfound m' hm')⟩
      · have hshort := hle rows messageIds
        rw [h, List.length_cons] at hshort
        omega

theorem nodup_peekUnreadByIds (mailbox : Mailbox) (messageIds : List String) :
    (mailbox.peekUnreadByIds messageIds).Nodup :=
  (mailbox.nodup.filter _).filter _

theorem not_read_of_peekUnread {mailbox : Mailbox} {messageIds : List String} {m : String}
    (h : m ∈ mailbox.peekUnreadByIds messageIds) : m ∉ mailbox.read := by
  have hunread := (List.mem_filter.mp (List.mem_filter.mp h).1).2
  simpa using hunread

end Rows

section Invariants

variable {c : SlotWorkCoordinator} {slotId : String} {x : MailboxSession}
  {s s' : CoordinatorState} {phase phase' : LoopPhase}

structure LoopInvariant (c : SlotWorkCoordinator) (slotId : String) (s : CoordinatorState)
    (phase : LoopPhase) : Prop where
  wellFormed : WellFormed c s
  slot : ∀ batch, phase.batch? = some batch → batch.slotId = slotId
  current : ∀ batch, phase.batch? = some batch → ∀ b, s.batchAt slotId = some b → b = batch

def LeasesInvariant (slotId : String) (flows : Table ℕ EnqueueFlow) : Prop :=
  ∀ flow lease messageId, flows.lookup flow = some (.acquired lease) ∨
    flows.lookup flow = some (.written lease messageId) → lease.slotId = slotId

structure DeliveryInvariant (read : List String) (phase : LoopPhase) (completed : List WorkBatch) :
    Prop where
  acknowledged : ∀ b ∈ completed, ∀ m ∈ b.mailboxMessageIds, m ∈ read ∨ m ∈ phase.unacknowledged
  executing : ∀ batch, phase = .executing batch → batch.mailboxMessageIds.Nodup ∧
    ∀ m ∈ batch.mailboxMessageIds, ∀ b ∈ completed, m ∉ b.mailboxMessageIds
  completed : (completed.flatMap WorkBatch.mailboxMessageIds).Nodup

structure SessionInvariant (c : SlotWorkCoordinator) (slotId : String) (x : MailboxSession) :
    Prop where
  loop : LoopInvariant c slotId x.state x.phase
  leases : LeasesInvariant slotId x.flows
  delivery : DeliveryInvariant x.mailbox.read x.phase x.completed

structure SingleOwner (slotId : String) (x : MailboxSession) : Prop where
  sole : SoleOwner x.state slotId
  claimed : ∀ batch, x.phase.batch? = some batch → batch.mailboxMessageIds.Nodup
  completed : (x.completed.flatMap WorkBatch.mailboxMessageIds).Nodup

theorem LoopInvariant.genuine (h : LoopInvariant c slotId s phase) {batch : WorkBatch}
    (hbatch : phase.batch? = some batch) : Genuine c s batch := by
  intro _ active hactive
  have hb : s.batchAt slotId = some active.batch := by
    rw [batchAt_eq, ← h.slot batch hbatch, hactive]
    rfl
  rw [h.current batch hbatch active.batch hb]
  exact ⟨rfl, rfl⟩

theorem LoopInvariant.advance (h : LoopInvariant c slotId s phase) (hwell : WellFormed c s')
    (hbatches : s'.batchAt slotId = s.batchAt slotId ∨ s'.batchAt slotId = none)
    (hphase : phase'.batch? = phase.batch? ∨ phase'.batch? = none) :
    LoopInvariant c slotId s' phase' where
  wellFormed := hwell
  slot batch hbatch := by
    rcases hphase with heq | hnone
    · exact h.slot batch (heq ▸ hbatch)
    · rw [hnone] at hbatch
      cases hbatch
  current batch hbatch b hb := by
    rcases hphase with heq | hnone
    · rcases hbatches with hsame | hgone
      · exact h.current batch (heq ▸ hbatch) b (hsame ▸ hb)
      · rw [hgone] at hb
        cases hb
    · rw [hnone] at hbatch
      cases hbatch

theorem LeasesInvariant.insert {flows : Table ℕ EnqueueFlow} (h : LeasesInvariant slotId flows)
    (flow : ℕ) {value : EnqueueFlow}
    (hvalue : ∀ lease m, value = .acquired lease ∨ value = .written lease m → lease.slotId = slotId) :
    LeasesInvariant slotId (flows.insert flow value) := by
  intro other lease m hother
  simp only [Table.lookup_insert_eq] at hother
  split at hother
  · exact hvalue lease m (hother.imp Option.some.inj Option.some.inj)
  · exact h other lease m hother

theorem LeasesInvariant.erase {flows : Table ℕ EnqueueFlow} (h : LeasesInvariant slotId flows)
    (flow : ℕ) : LeasesInvariant slotId (flows.erase flow) := by
  intro other lease m hother
  simp only [Table.lookup_erase_eq] at hother
  split at hother
  · rcases hother with hnone | hnone <;> cases hnone
  · exact h other lease m hother

theorem DeliveryInvariant.quiet {read read' : List String} {completed : List WorkBatch}
    (h : DeliveryInvariant read phase completed) (hread : ∀ m ∈ read, m ∈ read')
    (hphase : ∀ m ∈ phase.unacknowledged, m ∈ read' ∨ m ∈ phase'.unacknowledged)
    (hexecuting : ∀ batch, phase' = .executing batch → phase = .executing batch) :
    DeliveryInvariant read' phase' completed where
  acknowledged b hb m hm := by
    rcases h.acknowledged b hb m hm with hread' | hunack
    · exact Or.inl (hread m hread')
    · exact hphase m hunack
  executing batch hbatch := h.executing batch (hexecuting batch hbatch)
  completed := h.completed

theorem slot_of_acquire {answers : PortAnswers} {request : EnqueueRequest} {lease : EnqueueLease}
    (h : (c.acquireEnqueue s answers request).result = .ok lease) :
    lease.slotId = request.slotId := by
  unfold acquireEnqueue at h
  simp only at h
  split at h
  · cases h
  · obtain rfl := Except.ok.inj h
    rfl

structure Quiet (c : SlotWorkCoordinator) (slotId : String) (s s' : CoordinatorState) : Prop where
  wellFormed : WellFormed c s'
  batches : s'.batchAt slotId = s.batchAt slotId ∨ s'.batchAt slotId = none
  sole : SoleOwner s slotId → SoleOwner s' slotId

theorem quiet_refl (h : WellFormed c s) : Quiet c slotId s s := ⟨h, Or.inl rfl, id⟩

theorem Quiet.trans {s'' : CoordinatorState} (h : Quiet c slotId s s') (h' : Quiet c slotId s' s'') :
    Quiet c slotId s s'' where
  wellFormed := h'.wellFormed
  batches := by
    rcases h'.batches with heq | hnone
    · exact heq ▸ h.batches
    · exact Or.inr hnone
  sole hsole := h'.sole (h.sole hsole)

theorem quiet_step (h : WellFormed c s) (op : CoordinatorOp) (hop : GenuineBatches c s op)
    (hcalm : Calm c s (c.step s op))
    (hcommit : ∀ lease messageId now, op ≠ .commitEnqueue lease messageId now)
    (hreconcile : ∀ id unread role stale now,
      op ≠ .reconcileMailboxSnapshot id unread role stale now) :
    Quiet c slotId s (c.step s op) where
  wellFormed := (advances_step h hop).wellFormed
  batches := hcalm.batches slotId
  sole hsole := sole_step h hsole op hop hcommit hreconcile

structure Follows (c : SlotWorkCoordinator) (slotId : String) (x x' : MailboxSession) : Prop where
  invariant : SessionInvariant c slotId x'
  owner : SingleOwner slotId x → SingleOwner slotId x'

theorem follows_of_quiet {x' : MailboxSession} (hquiet : Quiet c slotId x.state x'.state)
    (hinv : SessionInvariant c slotId x)
    (hphase : x'.phase.batch? = x.phase.batch? ∨ x'.phase.batch? = none)
    (hleases : LeasesInvariant slotId x'.flows)
    (hdelivery : DeliveryInvariant x'.mailbox.read x'.phase x'.completed) :
    Follows c slotId x x' where
  invariant := ⟨hinv.loop.advance hquiet.wellFormed hquiet.batches hphase, hleases, hdelivery⟩
  owner howner := by
    refine ⟨hquiet.sole howner.sole, fun batch hbatch ↦ ?_, hdelivery.completed⟩
    rcases hphase with heq | hnone
    · exact howner.claimed batch (heq ▸ hbatch)
    · rw [hnone] at hbatch
      cases hbatch

theorem follows_refl (hinv : SessionInvariant c slotId x) : Follows c slotId x x := ⟨hinv, id⟩

theorem follows_state (hinv : SessionInvariant c slotId x) (hquiet : Quiet c slotId x.state s') :
    Follows c slotId x { x with state := s' } :=
  follows_of_quiet hquiet hinv (Or.inl rfl) hinv.leases hinv.delivery

theorem follows_phase (hinv : SessionInvariant c slotId x) (hquiet : Quiet c slotId x.state s')
    (hbatch : phase'.batch? = none) (hunack : x.phase.unacknowledged = []) :
    Follows c slotId x { x with state := s', phase := phase' } := by
  refine follows_of_quiet hquiet hinv (Or.inr hbatch) hinv.leases
    (hinv.delivery.quiet (fun _ hm ↦ hm) (by simp [hunack]) fun batch hphase ↦ ?_)
  have hphase' : phase' = .executing batch := hphase
  rw [hphase'] at hbatch
  cases hbatch

theorem follows_acquire (hinv : SessionInvariant c slotId x) (flow : ℕ) (answers : PortAnswers)
    (role : TeamRunTargetRole) (source : WorkSource) (binding : CausalBinding) :
    Follows c slotId x (x.acquire c slotId flow answers role source binding) := by
  have hquiet : Quiet c slotId x.state
      (c.acquireEnqueue x.state answers ⟨slotId, role, source, binding⟩).state :=
    quiet_step hinv.loop.wellFormed (.acquireEnqueue answers ⟨slotId, role, source, binding⟩)
      (by simp [GenuineBatches, CoordinatorOp.batch?])
      (calm_acquireEnqueue answers _) (by simp) (by simp)
  unfold MailboxSession.acquire
  split
  · exact follows_refl hinv
  · simp only
    split
    · next lease hlease =>
        refine follows_of_quiet hquiet hinv (Or.inl rfl) (hinv.leases.insert flow ?_) hinv.delivery
        rintro lease' m (heq | heq)
        · obtain rfl := EnqueueFlow.acquired.inj heq
          exact slot_of_acquire hlease
        · cases heq
    · exact follows_state hinv hquiet

theorem quiet_abort (h : WellFormed c s) (lease : EnqueueLease) :
    Quiet c slotId s (c.abortEnqueue s lease).state :=
  quiet_step h (.abortEnqueue lease) (by simp [GenuineBatches, CoordinatorOp.batch?])
    (calm_abortEnqueue lease) (by simp) (by simp)

theorem follows_write (hinv : SessionInvariant c slotId x) (flow : ℕ) (m : String) :
    Follows c slotId x (x.write c flow m) := by
  unfold MailboxSession.write
  split
  · next lease hlease =>
      have hslot := hinv.leases flow lease m (Or.inl hlease)
      split
      · next mailbox hmailbox =>
          have hread : mailbox.read = x.mailbox.read := by
            unfold Mailbox.write at hmailbox
            split at hmailbox
            · cases hmailbox
            · obtain rfl := Option.some.inj hmailbox
              rfl
          refine follows_of_quiet (quiet_refl hinv.loop.wellFormed) hinv (Or.inl rfl)
            (hinv.leases.insert flow ?_) (hread ▸ hinv.delivery)
          rintro lease' m' (heq | heq)
          · cases heq
          · obtain ⟨rfl, rfl⟩ := EnqueueFlow.written.inj heq
            exact hslot
      · exact follows_of_quiet (quiet_abort hinv.loop.wellFormed lease) hinv (Or.inl rfl)
          (hinv.leases.erase flow) hinv.delivery
  · exact follows_refl hinv

theorem follows_compensate (hinv : SessionInvariant c slotId x) (flow : ℕ) :
    Follows c slotId x (x.compensate flow) := by
  unfold MailboxSession.compensate
  split
  · exact follows_of_quiet (quiet_refl hinv.loop.wellFormed) hinv (Or.inl rfl)
      (hinv.leases.erase flow) (hinv.delivery.quiet (fun _ hm ↦ List.mem_append_left _ hm)
        (fun _ hm ↦ Or.inr hm) fun _ h ↦ h)
  · exact follows_refl hinv

theorem invariant_commit (hinv : SessionInvariant c slotId x) (flow : ℕ) (now : ℤ) :
    SessionInvariant c slotId (x.commit c flow now) ∧ (SingleOwner slotId x →
      (SingleOwner slotId (x.commit c flow now) ↔
        ∀ lease m, x.flows.lookup flow = some (.written lease m) →
          (∃ commit, (c.commitEnqueue x.state lease (some m) now).result = .ok commit) →
            x.state.alreadyOwned slotId m = false)) := by
  unfold MailboxSession.commit
  split
  · next lease m hflow =>
      have hslot := hinv.leases flow lease m (Or.inr hflow)
      have hadvances := advances_commitEnqueue hinv.loop.wellFormed lease (some m) now
      have hbatches := (calm_commitEnqueue (c := c) (s := x.state) lease (some m) now).batches slotId
      have hsole := fun hsole ↦ sole_commit hinv.loop.wellFormed hsole hslot m now
      have hguard : (∀ lease' m', x.flows.lookup flow = some (.written lease' m') →
          (∃ commit, (c.commitEnqueue x.state lease' (some m') now).result = .ok commit) →
            x.state.alreadyOwned slotId m' = false) ↔
          ((∃ commit, (c.commitEnqueue x.state lease (some m) now).result = .ok commit) →
            x.state.alreadyOwned slotId m = false) := by
        constructor
        · exact fun h ↦ h lease m hflow
        · intro h lease' m' hflow'
          obtain ⟨rfl, rfl⟩ := EnqueueFlow.written.inj (Option.some.inj (hflow.symm.trans hflow'))
          exact h
      rw [hguard]
      simp only
      split
      · next commit hcommit =>
          refine ⟨⟨hinv.loop.advance hadvances.wellFormed hbatches (Or.inl rfl),
            hinv.leases.erase flow, hinv.delivery⟩, fun howner ↦ ?_⟩
          rw [← hsole howner.sole]
          exact ⟨SingleOwner.sole, fun hsole' ↦ ⟨hsole', howner.claimed, howner.completed⟩⟩
      · next error herror =>
          have hstate : (c.commitEnqueue x.state lease (some m) now).state = x.state := by
            rcases commit_cases (c := c) (s := x.state) lease (some m) now with
              ⟨_, hstate⟩ | ⟨⟨commit, hcommit⟩, _⟩
            · exact hstate
            · rw [herror] at hcommit
              cases hcommit
          have hfollows : Follows c slotId x { x with
              state := (c.abortEnqueue (c.commitEnqueue x.state lease (some m) now).state lease).state
              flows := x.flows.insert flow (.rejected m) } := by
            refine follows_of_quiet ?_ hinv (Or.inl rfl) (hinv.leases.insert flow ?_) hinv.delivery
            · rw [hstate]
              exact quiet_abort hinv.loop.wellFormed lease
            · rintro lease' m' (heq | heq) <;> cases heq
          refine ⟨hfollows.invariant, fun howner ↦ iff_of_true (hfollows.owner howner) ?_⟩
          rintro ⟨commit, hcommit⟩
          rw [herror] at hcommit
          cases hcommit
  · next hnone =>
      refine ⟨hinv, fun howner ↦ iff_of_true howner fun lease m hflow ↦ ?_⟩
      exact absurd hflow (hnone lease m)

theorem nodup_claimBatch (h : WellFormed c s) (hsole : SoleOwner s slotId) {slot : SlotState}
    {priority : WorkPriority} {ids : List String} (hslot : s.slots.lookup slotId = some slot)
    (hsub : ids.Sublist (slot.queue priority)) :
    (c.claimBatch s slotId priority ids).mailboxMessageIds.Nodup := by
  have hdesk : s.deskAt slotId = slot.desk := deskAt_of_lookup hslot
  have hlane := (h.desks slotId).lanes priority
  rw [hdesk] at hlane
  have hcarries : ∀ id ∈ ids, ∀ m, s.messageOf id = some m → Carries s slotId m id := by
    intro id hid m hm
    obtain ⟨intent, hi, hq⟩ := (hlane.mem_iff id).mp (hsub.subset hid)
    refine ⟨intent, hi, hq.1, by rw [hq.2.2]; rfl, ?_⟩
    rwa [CoordinatorState.messageOf, hi] at hm
  have hnodup : ids.Pairwise (· ≠ ·) := hlane.nodup.sublist hsub
  change (ids.filterMap s.messageOf).Pairwise (· ≠ ·)
  refine List.pairwise_filterMap.mpr (hnodup.imp_of_mem fun hid hid' hne m hm m' hm' heq ↦ hne ?_)
  subst heq
  exact hsole m _ _ (hcarries _ hid m hm) (hcarries _ hid' m hm')

theorem follows_claimNext (hinv : SessionInvariant c slotId x) (hphase : x.phase = .reconciled) :
    Follows c slotId x (x.claimNext c slotId) := by
  have hunack : x.phase.unacknowledged = [] := by rw [hphase]; rfl
  have hadvances := advances_next hinv.loop.wellFormed slotId
  have hsole : SoleOwner x.state slotId → SoleOwner (c.next x.state slotId).state slotId :=
    fun hsole ↦ sole_step hinv.loop.wellFormed hsole (.next slotId)
      (by simp [GenuineBatches, CoordinatorOp.batch?]) (by simp) (by simp)
  unfold MailboxSession.claimNext
  rcases next_cases (c := c) (s := x.state) slotId with
    ⟨hsame, hno⟩ | ⟨slot, p, ids, hslot, _, _, hsub, hresult, hstate⟩
  · simp only [hsame]
    exact follows_phase hinv (quiet_refl hinv.loop.wellFormed) rfl hunack
  · simp only [hresult]
    refine ⟨⟨⟨hadvances.wellFormed, ?_, ?_⟩, hinv.leases, ?_⟩, fun howner ↦
      ⟨hsole howner.sole, ?_, howner.completed⟩⟩
    · intro batch hbatch
      obtain rfl := Option.some.inj hbatch
      rfl
    · intro batch hbatch b hb
      obtain rfl := Option.some.inj hbatch
      rw [hstate, batchAt_claimed, if_pos rfl] at hb
      exact (Option.some.inj hb).symm
    · exact hinv.delivery.quiet (fun _ hm ↦ hm) (by simp [hunack]) fun _ h ↦ by cases h
    · intro batch hbatch
      obtain rfl := Option.some.inj hbatch
      exact nodup_claimBatch hinv.loop.wellFormed howner.sole hslot hsub

theorem unacknowledged_of_batch {batch : WorkBatch} (h : phase.batch? = some batch) :
    phase.unacknowledged = [] := by
  cases phase with
  | claimed _ => rfl
  | executing _ => rfl
  | acknowledging _ => cases h
  | _ => rfl

theorem quiet_batchOp (h : LoopInvariant c slotId s phase) {batch : WorkBatch}
    (hbatch : phase.batch? = some batch) (op : CoordinatorOp)
    (hop : op.batch? = some batch) (hcalm : Calm c s (c.step s op)) :
    Quiet c slotId s (c.step s op) := by
  refine quiet_step h.wellFormed op ?_ hcalm ?_ ?_
  · intro other hother
    obtain rfl := Option.some.inj (hop.symm.trans hother)
    exact h.genuine hbatch
  · rintro lease messageId now rfl
    cases hop
  · rintro id unread role stale now rfl
    cases hop

theorem follows_giveBack (hinv : SessionInvariant c slotId x) {batch : WorkBatch}
    (hbatch : x.phase.batch? = some batch) :
    Follows c slotId x { x with state := (c.retryStart x.state batch).state, phase := .idle } :=
  follows_phase hinv
    (quiet_batchOp hinv.loop hbatch (.retryStart batch) rfl (calm_retryStart batch)) rfl
    (unacknowledged_of_batch hbatch)

theorem follows_reread (hinv : SessionInvariant c slotId x) {batch : WorkBatch}
    (hphase : x.phase = .claimed batch) : Follows c slotId x (x.reread c batch) := by
  have hbatch : x.phase.batch? = some batch := by rw [hphase]; rfl
  unfold MailboxSession.reread
  simp only
  split
  · exact follows_giveBack hinv hbatch
  · next hlength =>
      obtain ⟨hnodup, hunread⟩ := takeRows_all (nodup_peekUnreadByIds x.mailbox _)
        (not_not.mp hlength)
      refine follows_of_quiet (quiet_refl hinv.loop.wellFormed) hinv (Or.inl hbatch.symm)
        hinv.leases ⟨fun b hb m hm ↦ ?_, ?_, hinv.delivery.completed⟩
      · have hread := hinv.delivery.acknowledged b hb m hm
        rw [unacknowledged_of_batch hbatch] at hread
        exact Or.inl (hread.resolve_right List.not_mem_nil)
      · intro other hother
        obtain rfl := LoopPhase.executing.inj hother
        refine ⟨hnodup, fun m hm b hb hmem ↦ ?_⟩
        have hread := hinv.delivery.acknowledged b hb m hmem
        rw [unacknowledged_of_batch hbatch] at hread
        exact not_read_of_peekUnread (hunread m hm) (hread.resolve_right List.not_mem_nil)

theorem follows_markStarted (hinv : SessionInvariant c slotId x) {batch : WorkBatch}
    (hbatch : x.phase.batch? = some batch) (turnId : String) (now : ℤ) :
    Follows c slotId x (x.markStarted c batch turnId now) := by
  have hstart : Quiet c slotId x.state (c.markStarted x.state batch turnId now).state :=
    quiet_batchOp hinv.loop hbatch (.markStarted batch turnId now) rfl (calm_markStarted batch _ _)
  unfold MailboxSession.markStarted
  simp only
  split
  · have htake : Quiet c slotId (c.markStarted x.state batch turnId now).state
        (takeInterruptMetadata (c.markStarted x.state batch turnId now).state batch.batchId).state :=
      quiet_step hstart.wellFormed (.takeInterruptMetadata batch.batchId)
        (by simp [GenuineBatches, CoordinatorOp.batch?])
        (calm_lookup (fun _ ↦ rfl) le_rfl fun _ ↦ Or.inl rfl) (by simp) (by simp)
    have hmid := hstart.trans htake
    have hloop := hinv.loop.advance hmid.wellFormed hmid.batches (Or.inl rfl)
    exact follows_state hinv (hmid.trans (quiet_batchOp hloop hbatch
      (.cancelBatch batch "late_start_cancelled") rfl (calm_terminalizeBatch batch _ .notFailed)))
  · exact follows_state hinv hstart

theorem follows_fail (hinv : SessionInvariant c slotId x) {batch : WorkBatch}
    (hbatch : x.phase.batch? = some batch) (classification : String) :
    Follows c slotId x (x.fail c batch classification) := by
  have hunack := unacknowledged_of_batch hbatch
  unfold MailboxSession.fail
  split
  · exact follows_phase hinv (quiet_refl hinv.loop.wellFormed) rfl hunack
  · exact follows_phase hinv (quiet_batchOp hinv.loop hbatch (.failBatch batch classification) rfl
      (calm_terminalizeBatch batch _ .failed)) rfl hunack

theorem follows_complete (hinv : SessionInvariant c slotId x) {batch : WorkBatch}
    (hphase : x.phase = .executing batch) : Follows c slotId x (x.complete c batch) := by
  have hbatch : x.phase.batch? = some batch := by rw [hphase]; rfl
  have hunack := unacknowledged_of_batch hbatch
  have hquiet : Quiet c slotId x.state (c.completeBatchWithAck x.state batch).state :=
    quiet_batchOp hinv.loop hbatch (.completeBatchWithAck batch) rfl (calm_completeBatchWithAck batch)
  obtain ⟨hnodup, hfresh⟩ := hinv.delivery.executing batch hphase
  unfold MailboxSession.complete
  split
  · exact follows_phase hinv (quiet_refl hinv.loop.wellFormed) rfl hunack
  · simp only
    split
    · next hcommitted =>
        have hack : ∀ m ∈ batch.mailboxMessageIds,
            m ∈ (c.completeBatchWithAck x.state batch).result.ackMessageIds := by
          cases hcurrent : c.isCurrentBatch x.state batch with
          | false =>
              rw [complete_stale hcurrent] at hcommitted
              cases hcommitted
          | true =>
              obtain ⟨active, hactive, _⟩ := active_of_current hcurrent
              have hb : x.state.batchAt slotId = some active.batch := by
                rw [batchAt_eq, ← hinv.loop.slot batch hbatch, hactive]
                rfl
              rw [(complete_current hactive hcurrent).1, hinv.loop.current batch hbatch _ hb]
              exact fun m hm ↦ mem_foldl_pushNew.mpr (Or.inl hm)
        refine follows_of_quiet hquiet hinv (Or.inr rfl) hinv.leases
          ⟨fun b hb m hm ↦ ?_, fun _ h ↦ (by cases h), ?_⟩
        · rcases List.mem_append.mp hb with hold | hnew
          · have hread := hinv.delivery.acknowledged b hold m hm
            rw [hunack] at hread
            exact Or.inl (hread.resolve_right List.not_mem_nil)
          · obtain rfl := List.mem_singleton.mp hnew
            exact Or.inr (hack m hm)
        · rw [List.flatMap_append]
          refine List.nodup_append.mpr ⟨hinv.delivery.completed, by simpa using hnodup, ?_⟩
          rintro m hm m' hm' rfl
          obtain ⟨b, hb, hmb⟩ := List.mem_flatMap.mp hm
          exact hfresh m (by simpa using hm') b hb hmb
    · exact follows_phase hinv hquiet rfl hunack

theorem follows_reconcile (hinv : SessionInvariant c slotId x) {stale unread : List String}
    (hphase : x.phase = .peeked stale unread) (role : TeamRunTargetRole) (now : ℤ) :
    Follows c slotId x { x with
      state := (c.reconcileMailboxSnapshot x.state slotId unread role stale now).state
      phase := .reconciled } := by
  refine follows_phase hinv ⟨?_, ?_, fun hsole ↦ ?_⟩ rfl (by rw [hphase]; rfl)
  · exact (advances_reconcileMailboxSnapshot hinv.loop.wellFormed _ _ _ _ _).wellFormed
  · exact (calm_reconcileMailboxSnapshot (c := c) slotId unread role stale now).batches slotId
  · exact sole_reconcile hinv.loop.wellFormed hsole unread role stale now

theorem follows_acknowledge (hinv : SessionInvariant c slotId x) {messageIds : List String}
    (hphase : x.phase = .acknowledging messageIds) :
    Follows c slotId x
      { x with mailbox := x.mailbox.markRead messageIds, phase := .idle } := by
  refine follows_of_quiet (quiet_refl hinv.loop.wellFormed) hinv (Or.inr rfl) hinv.leases
    (hinv.delivery.quiet (fun _ hm ↦ List.mem_append_left _ hm) (fun m hm ↦ Or.inl ?_) fun _ h ↦ by
      cases h)
  rw [hphase] at hm
  exact List.mem_append_right _ hm

def SessionAction.Unowned (c : SlotWorkCoordinator) (slotId : String) (x : MailboxSession) :
    SessionAction → Prop
  | .commit flow now => ∀ lease m, x.flows.lookup flow = some (.written lease m) →
      (∃ commit, (c.commitEnqueue x.state lease (some m) now).result = .ok commit) →
        x.state.alreadyOwned slotId m = false
  | _ => True

theorem follows_step (hinv : SessionInvariant c slotId x) {action : SessionAction}
    (hcommit : ∀ flow now, action ≠ .commit flow now) :
    Follows c slotId x (x.step c slotId action) := by
  cases action with
  | acquire flow answers role source binding => exact follows_acquire hinv flow answers role _ _
  | write flow m => exact follows_write hinv flow m
  | commit flow now => exact (hcommit flow now rfl).elim
  | compensate flow => exact follows_compensate hinv flow
  | setRuntimeConstraint constraint =>
      exact follows_state hinv (quiet_step hinv.loop.wellFormed
        (.setRuntimeConstraint slotId constraint) (by simp [GenuineBatches, CoordinatorOp.batch?])
        (calm_setRuntimeConstraint slotId constraint) (by simp) (by simp))
  | readCandidates =>
      simp only [MailboxSession.step]
      split
      · next hphase =>
          exact follows_phase hinv (quiet_refl hinv.loop.wellFormed) rfl (by rw [hphase]; rfl)
      · exact follows_refl hinv
  | peekUnread =>
      simp only [MailboxSession.step]
      split
      · next hphase =>
          exact follows_phase hinv (quiet_refl hinv.loop.wellFormed) rfl (by rw [hphase]; rfl)
      · exact follows_refl hinv
  | reconcile role now =>
      simp only [MailboxSession.step]
      split
      · next hphase => exact follows_reconcile hinv hphase role now
      · exact follows_refl hinv
  | next =>
      simp only [MailboxSession.step]
      split
      · next hphase => exact follows_claimNext hinv hphase
      · exact follows_refl hinv
  | reread =>
      simp only [MailboxSession.step]
      split
      · next hphase => exact follows_reread hinv hphase
      · exact follows_refl hinv
  | giveBack =>
      simp only [MailboxSession.step]
      split
      · next hbatch => exact follows_giveBack hinv hbatch
      · exact follows_refl hinv
  | markStarted turnId now =>
      simp only [MailboxSession.step]
      split
      · next hphase => exact follows_markStarted hinv (by rw [hphase]; rfl) turnId now
      · exact follows_refl hinv
  | complete =>
      simp only [MailboxSession.step]
      split
      · next hphase => exact follows_complete hinv hphase
      · exact follows_refl hinv
  | fail classification =>
      simp only [MailboxSession.step]
      split
      · next hphase => exact follows_fail hinv (by rw [hphase]; rfl) classification
      · exact follows_refl hinv
  | acknowledge =>
      simp only [MailboxSession.step]
      split
      · next hphase => exact follows_acknowledge hinv hphase
      · exact follows_refl hinv
  | readElsewhere messageIds =>
      exact follows_of_quiet (quiet_refl hinv.loop.wellFormed) hinv (Or.inl rfl) hinv.leases
        (hinv.delivery.quiet (fun _ hm ↦ List.mem_append_left _ hm) (fun _ hm ↦ Or.inr hm)
          fun _ h ↦ h)
  | rehash rank =>
      exact follows_state hinv (quiet_step hinv.loop.wellFormed (.rehash rank)
        (by simp [GenuineBatches, CoordinatorOp.batch?]) (calm_rehash rank) (by simp) (by simp))

theorem sessionInvariant_initial (c : SlotWorkCoordinator) (slotId : String) (mailbox : Mailbox) :
    SessionInvariant c slotId (.initial mailbox) where
  loop := ⟨wellFormed_empty, fun _ h ↦ (by cases h), fun _ h ↦ by cases h⟩
  leases flow lease m h := by simp [MailboxSession.initial] at h
  delivery := ⟨by simp [MailboxSession.initial], fun _ h ↦ (by cases h), List.nodup_nil⟩

/-- The loop recovers a row that is written, before the writer of the row commits. -/
def recoverThenCommit : List SessionAction :=
  [.setRuntimeConstraint .ready,
    .acquire 0 ⟨fun _ ↦ ⟨none, false, false⟩, fun _ ↦ ⟨none, false, false⟩⟩ .lead .spawnWelcome
      .background,
    .write 0 "m", .readCandidates, .peekUnread, .reconcile .lead 0, .commit 0 0, .next]

end Invariants

end Zaowutai.Team
