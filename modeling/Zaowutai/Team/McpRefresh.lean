import Zaowutai.Team.SlotCore

/-!
# Claims of a tool refresh

A fingerprint that cannot be applied at once is deferred.  The event loop of
the slot claims the pending one, and the claim ends when the refresh is
completed, released or settled.  The mark of a running refresh is what keeps a
second claim out, and a deferral takes it away.
-/

namespace Zaowutai.Team

open Zaowutai.Lib SlotWorkCoordinator

/-- The fingerprints that a slot has applied and will apply, and whether a refresh is running. -/
structure Refresh where
  applied : Option String
  pending : Option String
  inProgress : Bool
  deriving DecidableEq, Repr

def SlotCore.refresh (core : SlotCore) : Refresh :=
  ⟨core.appliedMcpFingerprint, core.pendingMcpFingerprint, core.mcpRefreshInProgress⟩

def CoordinatorState.refreshAt (s : CoordinatorState) (slotId : String) : Refresh :=
  (s.coreAt slotId).refresh

def CoordinatorOp.refreshSlot? : CoordinatorOp → Option String
  | .requestMcpRefresh slotId _ | .deferMcpRefresh slotId _ | .claimPendingMcpRefresh slotId
  | .completeMcpRefresh slotId _ | .releaseMcpRefresh slotId _ | .settleMcpRefreshClaim slotId _ =>
      some slotId
  | _ => none

section Kept

variable {c : SlotWorkCoordinator} {s : CoordinatorState} {slotId : String}

theorem refresh_countFailures (core : SlotCore) (messageIds : List String) :
    (core.countFailures messageIds).1.refresh = core.refresh := by
  have hfold : ∀ (messageIds : List String) (acc : SlotCore × List String),
      (messageIds.foldl SlotCore.countFailure acc).1.refresh = acc.1.refresh := by
    intro messageIds
    induction messageIds with
    | nil => exact fun _ ↦ rfl
    | cons m messageIds ih => exact fun acc ↦ (ih _).trans rfl
  exact hfold messageIds (core, [])

theorem refresh_terminalizeBatch (batch : WorkBatch) (terminal : WorkIntentState)
    (delivery : DeliveryOutcome) :
    (c.terminalizeBatch s batch terminal delivery).state.refreshAt slotId = s.refreshAt slotId := by
  obtain ⟨hsame, -⟩ | ⟨slot, hslot, -, -, hcore⟩ :=
    coreAt_terminalizeBatch (c := c) (s := s) batch terminal delivery
  · rw [hsame]
  · rw [CoordinatorState.refreshAt, hcore]
    split
    · next heq =>
        rw [CoordinatorState.refreshAt, heq, coreAt_of_lookup hslot]
        cases delivery with
        | notFailed => rfl
        | failed =>
            have hfst := congrArg Prod.fst (releaseSlot_failed slot batch)
            exact (congrArg SlotCore.refresh hfst).trans (refresh_countFailures _ _)
    · rfl

theorem refreshAt_step {op : CoordinatorOp} (h : op.refreshSlot? ≠ some slotId) :
    (c.step s op).refreshAt slotId = s.refreshAt slotId := by
  by_cases hset : op.setsConstraint = true
  · obtain ⟨constraint, hcore⟩ := coreAt_setsConstraint (c := c) (s := s) hset slotId
    exact (congrArg SlotCore.refresh hcore).trans rfl
  cases op with
  | commitEnqueue lease messageId now =>
      change (c.commitEnqueue s lease messageId now).state.refreshAt slotId = _
      obtain ⟨hsame, -⟩ | ⟨-, hcore⟩ := coreAt_commitEnqueue (c := c) (s := s) lease messageId now
      · rw [hsame]
      · rw [CoordinatorState.refreshAt, hcore]
        split <;> rfl
  | reconcileMailboxSnapshot other unread role staleCandidates now =>
      change (c.reconcileMailboxSnapshot s other unread role staleCandidates now).state.refreshAt
        slotId = _
      rw [CoordinatorState.refreshAt, coreAt_reconcile]
      split <;> rfl
  | completeBatchWithAck batch =>
      change (c.completeBatchWithAck s batch).state.refreshAt slotId = _
      obtain ⟨hsame, -⟩ | ⟨_, -, -, -, hcore⟩ := coreAt_completeBatchWithAck (c := c) (s := s) batch
      · rw [hsame]
      · rw [CoordinatorState.refreshAt, hcore]
        split <;> rfl
  | failBatch batch classification => exact refresh_terminalizeBatch batch _ .failed
  | cancelBatch batch classification => exact refresh_terminalizeBatch batch _ .notFailed
  | interruptBatch batch reason messageId =>
      change (c.interruptBatch s batch reason messageId).state.refreshAt slotId = _
      obtain ⟨hsame, -⟩ | ⟨-, -, hcore⟩ :=
        coreAt_interruptBatch (c := c) (s := s) batch reason messageId
      · rw [hsame]
      · rw [CoordinatorState.refreshAt, hcore]
        split <;> rfl
  | pauseSlot other =>
      change (pauseSlot s other).state.refreshAt slotId = _
      rw [CoordinatorState.refreshAt, coreAt_pauseSlot]
      split <;> rfl
  | setRuntimeConstraint _ _ | beginRuntimeRestart _ _ | abortRuntimeRestart _ _ | stop =>
      exact absurd rfl hset
  | requestMcpRefresh other fingerprint =>
      change (requestMcpRefresh s other fingerprint).state.refreshAt slotId = _
      obtain ⟨-, hkept⟩ | ⟨-, hcore⟩ := coreAt_requestMcpRefresh (s := s) other fingerprint
      · rw [CoordinatorState.refreshAt, hkept]
        rfl
      · rw [CoordinatorState.refreshAt, hcore, if_neg fun heq ↦ h (congrArg some heq.symm)]
        rfl
  | deferMcpRefresh other fingerprint =>
      change (deferMcpRefresh s other fingerprint).state.refreshAt slotId = _
      rw [CoordinatorState.refreshAt, coreAt_deferMcpRefresh,
        if_neg fun heq ↦ h (congrArg some heq.1.symm)]
      rfl
  | claimPendingMcpRefresh other =>
      change (claimPendingMcpRefresh s other).state.refreshAt slotId = _
      obtain ⟨-, hsame, -⟩ | ⟨_, -, -, -, -, hcore⟩ := coreAt_claimPendingMcpRefresh (s := s) other
      · rw [hsame]
      · rw [CoordinatorState.refreshAt, hcore, if_neg fun heq ↦ h (congrArg some heq.symm)]
        rfl
  | completeMcpRefresh other fingerprint =>
      change (completeMcpRefresh s other fingerprint).state.refreshAt slotId = _
      rw [CoordinatorState.refreshAt, coreAt_completeMcpRefresh,
        if_neg fun heq ↦ h (congrArg some heq.1.symm)]
      rfl
  | releaseMcpRefresh other fingerprint =>
      change (releaseMcpRefresh s other fingerprint).state.refreshAt slotId = _
      rw [CoordinatorState.refreshAt, coreAt_releaseMcpRefresh,
        if_neg fun heq ↦ h (congrArg some heq.symm)]
      rfl
  | settleMcpRefreshClaim other fingerprint =>
      change (settleMcpRefreshClaim s other fingerprint).state.refreshAt slotId = _
      rw [CoordinatorState.refreshAt, coreAt_settleMcpRefreshClaim,
        if_neg fun heq ↦ h (congrArg some heq.symm)]
      rfl
  | _ => exact congrArg SlotCore.refresh (coreKept_step rfl slotId)

end Kept

structure RefreshHistory where
  state : CoordinatorState
  /-- The fingerprints that are claimed, each claim until it is ended. -/
  outstanding : List String
  /-- A fingerprint was deferred while a claim that still runs was outstanding. -/
  superseded : Bool
  /-- The fingerprint that was deferred last. -/
  deferred : Option String
  /-- Every claim that ended was completed. -/
  allCompleted : Bool

namespace RefreshHistory

def initial : RefreshHistory := ⟨.empty, [], false, none, true⟩

variable (h : RefreshHistory)

def noteDeferred (fingerprint : String) : RefreshHistory :=
  { h with superseded := !h.outstanding.isEmpty, deferred := some fingerprint }

def noteEnded (fingerprint : String) (completed : Bool) : RefreshHistory :=
  let outstanding := h.outstanding.erase fingerprint
  { h with
    outstanding := outstanding
    superseded := h.superseded && !outstanding.isEmpty
    allCompleted := h.allCompleted && completed }

def note (slotId : String) (op : CoordinatorOp) : RefreshHistory :=
  match op with
  | .requestMcpRefresh other fingerprint =>
      if other = slotId ∧ (requestMcpRefresh h.state other fingerprint).result = .deferred then
        h.noteDeferred fingerprint
      else h
  | .deferMcpRefresh other fingerprint =>
      if other = slotId ∧ (h.state.refreshAt slotId).applied ≠ some fingerprint then
        h.noteDeferred fingerprint
      else h
  | .claimPendingMcpRefresh other =>
      if other = slotId then
        { h with outstanding :=
            (claimPendingMcpRefresh h.state other).result.toList ++ h.outstanding }
      else h
  | .completeMcpRefresh other fingerprint =>
      if other = slotId then h.noteEnded fingerprint true else h
  | .releaseMcpRefresh other fingerprint | .settleMcpRefreshClaim other fingerprint =>
      if other = slotId then h.noteEnded fingerprint false else h
  | _ => h

end RefreshHistory

namespace SlotWorkCoordinator

def refreshStep (c : SlotWorkCoordinator) (slotId : String) (h : RefreshHistory)
    (op : CoordinatorOp) : RefreshHistory :=
  { h.note slotId op with state := c.step h.state op }

end SlotWorkCoordinator

def endedClaim (slotId : String) : CoordinatorOp → Option String
  | .completeMcpRefresh other fingerprint | .releaseMcpRefresh other fingerprint
  | .settleMcpRefreshClaim other fingerprint => if other = slotId then some fingerprint else none
  | _ => none

def EndsClaim (slotId : String) (h : RefreshHistory) (op : CoordinatorOp) : Prop :=
  ∀ fingerprint ∈ endedClaim slotId op, fingerprint ∈ h.outstanding

def AwaitsEnd (slotId : String) (h : RefreshHistory) (op : CoordinatorOp) : Prop :=
  op = .claimPendingMcpRefresh slotId → h.superseded = true →
    (h.state.activeBatch slotId).isSome

structure Exclusive (slotId : String) (h : RefreshHistory) : Prop where
  one : h.outstanding.length ≤ 1
  converged : h.outstanding = [] → h.allCompleted = true →
    (h.state.refreshAt slotId).pending = none →
    ∀ fingerprint ∈ h.deferred, (h.state.refreshAt slotId).applied = some fingerprint

structure Refreshing (slotId : String) (h : RefreshHistory) : Prop where
  one : h.outstanding.length ≤ 1
  idle : h.outstanding = [] → h.superseded = false
  inProgress : (h.state.refreshAt slotId).inProgress = true ↔
    h.outstanding ≠ [] ∧ h.superseded = false
  claimed : ∀ fingerprint ∈ h.outstanding, h.superseded = false →
    (h.state.refreshAt slotId).pending = some fingerprint
  waiting : h.outstanding ≠ [] → (h.state.refreshAt slotId).pending.isSome
  deferred : ∀ fingerprint ∈ (h.state.refreshAt slotId).pending, h.deferred = some fingerprint
  applied : (h.state.refreshAt slotId).pending = none → h.allCompleted = true →
    ∀ fingerprint ∈ h.deferred, (h.state.refreshAt slotId).applied = some fingerprint

section Steps

variable {c : SlotWorkCoordinator} {h : RefreshHistory} {slotId fingerprint : String}
  {op : CoordinatorOp}

theorem refreshing_initial : Refreshing slotId .initial where
  one := Nat.zero_le 1
  idle _ := rfl
  inProgress := by simp [RefreshHistory.initial, CoordinatorState.refreshAt,
    CoordinatorState.coreAt, CoordinatorState.empty, SlotCore.new, SlotCore.refresh]
  claimed := by simp [RefreshHistory.initial]
  waiting := by simp [RefreshHistory.initial]
  deferred := by simp [RefreshHistory.initial, CoordinatorState.refreshAt,
    CoordinatorState.coreAt, CoordinatorState.empty, SlotCore.new, SlotCore.refresh]
  applied := by simp [RefreshHistory.initial]

theorem Refreshing.keep (hrefresh : Refreshing slotId h) {s : CoordinatorState}
    (hsame : s.refreshAt slotId = h.state.refreshAt slotId) :
    Refreshing slotId { h with state := s } where
  one := hrefresh.one
  idle := hrefresh.idle
  inProgress := hsame ▸ hrefresh.inProgress
  claimed := hsame ▸ hrefresh.claimed
  waiting := hsame ▸ hrefresh.waiting
  deferred := hsame ▸ hrefresh.deferred
  applied := hsame ▸ hrefresh.applied

theorem Refreshing.defers (hrefresh : Refreshing slotId h) {s : CoordinatorState}
    (hs : s.refreshAt slotId = ⟨(h.state.refreshAt slotId).applied, some fingerprint, false⟩) :
    Refreshing slotId { h.noteDeferred fingerprint with state := s } where
  one := hrefresh.one
  idle hnil := by
    have hnil : h.outstanding = [] := hnil
    simp [RefreshHistory.noteDeferred, hnil]
  inProgress := by
    rw [hs]
    cases hout : h.outstanding <;> simp [RefreshHistory.noteDeferred, hout]
  claimed g hg hsuperseded := by
    have hg : g ∈ h.outstanding := hg
    have hempty : h.outstanding = [] := by
      simpa [RefreshHistory.noteDeferred] using hsuperseded
    rw [hempty] at hg
    cases hg
  waiting _ := by
    rw [hs]
    rfl
  deferred g hg := by
    rw [hs] at hg
    exact hg
  applied hnone := by
    rw [hs] at hnone
    cases hnone

theorem Refreshing.claims (hrefresh : Refreshing slotId h) {s : CoordinatorState}
    (hfree : h.outstanding = [])
    (hpending : (h.state.refreshAt slotId).pending = some fingerprint)
    (hs : s.refreshAt slotId = { h.state.refreshAt slotId with inProgress := true }) :
    Refreshing slotId { h with state := s, outstanding := [fingerprint] } where
  one := le_rfl
  idle hnil := by cases hnil
  inProgress := by
    rw [hs]
    simp [hrefresh.idle hfree]
  claimed g hg _ := by
    rw [hs, List.mem_singleton.mp hg]
    exact hpending
  waiting _ := by
    rw [hs]
    exact Option.isSome_iff_exists.mpr ⟨fingerprint, hpending⟩
  deferred g hg := by
    rw [hs] at hg
    exact hrefresh.deferred g hg
  applied hnone := by
    rw [hs] at hnone
    rw [hpending] at hnone
    cases hnone

theorem Refreshing.outstanding_eq (hrefresh : Refreshing slotId h)
    (hf : fingerprint ∈ h.outstanding) : h.outstanding = [fingerprint] := by
  have hone := hrefresh.one
  cases hout : h.outstanding with
  | nil => simp [hout] at hf
  | cons g rest =>
      rw [hout] at hf hone
      obtain rfl : rest = [] := by simpa using hone
      rw [List.mem_singleton.mp hf]

theorem Refreshing.ends (hrefresh : Refreshing slotId h) {s : CoordinatorState} {completed : Bool}
    (hf : fingerprint ∈ h.outstanding) (hidle : (s.refreshAt slotId).inProgress = false)
    (hpending : ∀ g ∈ (s.refreshAt slotId).pending, g ∈ (h.state.refreshAt slotId).pending)
    (happlied : completed = true → (s.refreshAt slotId).pending = none →
      ∀ g ∈ h.deferred, (s.refreshAt slotId).applied = some g) :
    Refreshing slotId { h.noteEnded fingerprint completed with state := s } := by
  have hnil : h.outstanding.erase fingerprint = [] := by
    rw [hrefresh.outstanding_eq hf]
    simp
  refine ⟨?_, fun _ ↦ ?_, ?_, fun g hg ↦ ?_, fun hne ↦ ?_, fun g hg ↦ ?_, fun hnone hall ↦ ?_⟩
  · simp [RefreshHistory.noteEnded, hnil]
  · simp [RefreshHistory.noteEnded, hnil]
  · simp [RefreshHistory.noteEnded, hnil, hidle]
  · simp [RefreshHistory.noteEnded, hnil] at hg
  · simp [RefreshHistory.noteEnded, hnil] at hne
  · exact hrefresh.deferred g (hpending g hg)
  · have hboth : h.allCompleted = true ∧ completed = true := by
      simpa [RefreshHistory.noteEnded] using hall
    exact happlied hboth.2 hnone

theorem Refreshing.not_inProgress (hrefresh : Refreshing slotId h)
    (hf : fingerprint ∈ h.outstanding)
    (hpending : (h.state.refreshAt slotId).pending ≠ some fingerprint) :
    (h.state.refreshAt slotId).inProgress = false := by
  rw [← Bool.not_eq_true, hrefresh.inProgress]
  rintro ⟨-, hsuperseded⟩
  exact hpending (hrefresh.claimed fingerprint hf hsuperseded)

theorem note_of_other (hop : op.refreshSlot? ≠ some slotId) : h.note slotId op = h := by
  cases op with
  | requestMcpRefresh other fingerprint => exact if_neg fun heq ↦ hop (congrArg some heq.1)
  | deferMcpRefresh other fingerprint => exact if_neg fun heq ↦ hop (congrArg some heq.1)
  | claimPendingMcpRefresh other => exact if_neg fun heq ↦ hop (congrArg some heq)
  | completeMcpRefresh other fingerprint => exact if_neg fun heq ↦ hop (congrArg some heq)
  | releaseMcpRefresh other fingerprint => exact if_neg fun heq ↦ hop (congrArg some heq)
  | settleMcpRefreshClaim other fingerprint => exact if_neg fun heq ↦ hop (congrArg some heq)
  | _ => rfl

theorem refreshing_request (hrefresh : Refreshing slotId h) (fingerprint : String) :
    Refreshing slotId (c.refreshStep slotId h (.requestMcpRefresh slotId fingerprint)) := by
  rw [refreshStep, RefreshHistory.note]
  obtain ⟨hresult, hkept⟩ | ⟨hresult, hcore⟩ :=
    coreAt_requestMcpRefresh (s := h.state) slotId fingerprint
  · rw [if_neg fun heq ↦ hresult heq.2]
    exact hrefresh.keep (congrArg SlotCore.refresh (hkept slotId))
  · rw [if_pos ⟨rfl, hresult⟩]
    refine hrefresh.defers ?_
    have hslot := hcore slotId
    rw [if_pos rfl] at hslot
    exact congrArg SlotCore.refresh hslot

theorem refreshing_defer (hrefresh : Refreshing slotId h) (fingerprint : String) :
    Refreshing slotId (c.refreshStep slotId h (.deferMcpRefresh slotId fingerprint)) := by
  have hcore := coreAt_deferMcpRefresh (s := h.state) slotId fingerprint slotId
  rw [refreshStep, RefreshHistory.note]
  by_cases hne : (h.state.refreshAt slotId).applied ≠ some fingerprint
  · rw [if_pos ⟨rfl, hne⟩]
    rw [if_pos ⟨rfl, hne⟩] at hcore
    exact hrefresh.defers (congrArg SlotCore.refresh hcore)
  · rw [if_neg fun heq ↦ hne heq.2]
    rw [if_neg fun heq ↦ hne heq.2] at hcore
    exact hrefresh.keep (congrArg SlotCore.refresh hcore)

theorem claim_cases (c : SlotWorkCoordinator) (h : RefreshHistory) (slotId : String) :
    (c.refreshStep slotId h (.claimPendingMcpRefresh slotId) = h ∧
        ((h.state.activeBatch slotId).isSome ∨ (h.state.refreshAt slotId).inProgress = true ∨
          (h.state.refreshAt slotId).pending = none)) ∨
      ∃ fingerprint s, c.refreshStep slotId h (.claimPendingMcpRefresh slotId) =
          { h with state := s, outstanding := fingerprint :: h.outstanding } ∧
        h.state.activeBatch slotId = none ∧ (h.state.refreshAt slotId).inProgress = false ∧
        (h.state.refreshAt slotId).pending = some fingerprint ∧
        s.refreshAt slotId = { h.state.refreshAt slotId with inProgress := true } := by
  rw [refreshStep, RefreshHistory.note, if_pos rfl]
  obtain ⟨hresult, hsame, hrefused⟩ | ⟨fingerprint, hresult, hfree, hidle, hpending, hcore⟩ :=
    coreAt_claimPendingMcpRefresh (s := h.state) slotId
  · refine Or.inl ⟨?_, hrefused⟩
    have hstep : c.step h.state (.claimPendingMcpRefresh slotId) = h.state := hsame
    rw [hresult, hstep]
    rfl
  · refine Or.inr ⟨fingerprint, c.step h.state (.claimPendingMcpRefresh slotId), ?_, hfree, hidle,
      hpending, ?_⟩
    · rw [hresult]
      rfl
    · have hslot := hcore slotId
      rw [if_pos rfl] at hslot
      exact congrArg SlotCore.refresh hslot

theorem refreshing_claim (hrefresh : Refreshing slotId h)
    (hawaits : AwaitsEnd slotId h (.claimPendingMcpRefresh slotId)) :
    Refreshing slotId (c.refreshStep slotId h (.claimPendingMcpRefresh slotId)) := by
  obtain ⟨hsame, -⟩ | ⟨fingerprint, s, hstep, hfree, hidle, hpending, hs⟩ := claim_cases c h slotId
  · rw [hsame]
    exact hrefresh
  · have hsuperseded : h.superseded = false := by
      rw [← Bool.not_eq_true]
      intro hsuperseded
      have hactive := hawaits rfl hsuperseded
      rw [hfree] at hactive
      cases hactive
    have hnil : h.outstanding = [] := by
      by_contra hne
      rw [hrefresh.inProgress.mpr ⟨hne, hsuperseded⟩] at hidle
      cases hidle
    rw [hstep, hnil]
    exact hrefresh.claims hnil hpending hs

theorem refreshing_complete (hrefresh : Refreshing slotId h) (hf : fingerprint ∈ h.outstanding) :
    Refreshing slotId (c.refreshStep slotId h (.completeMcpRefresh slotId fingerprint)) := by
  obtain ⟨pending, hpending⟩ := Option.isSome_iff_exists.mp
    (hrefresh.waiting (List.ne_nil_of_mem hf))
  have hslot : (h.state.slots.lookup slotId).isSome := by
    cases hslot : h.state.slots.lookup slotId with
    | none =>
        rw [CoordinatorState.refreshAt, CoordinatorState.coreAt, hslot] at hpending
        cases hpending
    | some slot => rfl
  have hcore := coreAt_completeMcpRefresh (s := h.state) slotId fingerprint slotId
  rw [if_pos ⟨rfl, hslot⟩] at hcore
  have hs : (c.step h.state (.completeMcpRefresh slotId fingerprint)).refreshAt slotId =
      ⟨some fingerprint, (h.state.refreshAt slotId).pending.filter (· ≠ fingerprint), false⟩ :=
    congrArg SlotCore.refresh hcore
  rw [refreshStep, RefreshHistory.note, if_pos rfl]
  refine hrefresh.ends hf ?_ ?_ ?_
  · rw [hs]
  · rw [hs]
    intro g hg
    exact (Option.filter_eq_some_iff.mp hg).1
  · rw [hs]
    intro _ hnone g hg
    have heq : pending = fingerprint := by
      simpa [hpending, Option.filter_eq_none_iff] using hnone
    have hdeferred := hrefresh.deferred pending hpending
    rw [Option.mem_def.mp hg] at hdeferred
    rw [← heq, Option.some.inj hdeferred]

theorem refreshing_giveUp (hrefresh : Refreshing slotId h) (hf : fingerprint ∈ h.outstanding)
    {s : CoordinatorState} {p : Option String}
    (hpending : ∀ g ∈ p, g ∈ (h.state.refreshAt slotId).pending)
    (hs : s.refreshAt slotId =
      if (h.state.refreshAt slotId).pending = some fingerprint then
        { h.state.refreshAt slotId with pending := p, inProgress := false }
      else h.state.refreshAt slotId) :
    Refreshing slotId { h.noteEnded fingerprint false with state := s } := by
  refine hrefresh.ends hf ?_ ?_ (fun h ↦ by cases h)
  · rw [hs]
    split
    · rfl
    · next hne => exact hrefresh.not_inProgress hf hne
  · rw [hs]
    split
    · exact hpending
    · exact fun g hg ↦ hg

theorem refreshing_step (hrefresh : Refreshing slotId h) (hends : EndsClaim slotId h op)
    (hawaits : AwaitsEnd slotId h op) : Refreshing slotId (c.refreshStep slotId h op) := by
  by_cases hop : op.refreshSlot? = some slotId
  · cases op with
    | requestMcpRefresh other fingerprint =>
        obtain rfl := Option.some.inj hop
        exact refreshing_request hrefresh fingerprint
    | deferMcpRefresh other fingerprint =>
        obtain rfl := Option.some.inj hop
        exact refreshing_defer hrefresh fingerprint
    | claimPendingMcpRefresh other =>
        obtain rfl := Option.some.inj hop
        exact refreshing_claim hrefresh hawaits
    | completeMcpRefresh other fingerprint =>
        obtain rfl := Option.some.inj hop
        exact refreshing_complete hrefresh (hends fingerprint (if_pos rfl))
    | releaseMcpRefresh other fingerprint =>
        obtain rfl := Option.some.inj hop
        have hf := hends fingerprint (if_pos rfl)
        have hcore := coreAt_releaseMcpRefresh (s := h.state) other fingerprint other
        rw [if_pos rfl] at hcore
        rw [refreshStep, RefreshHistory.note, if_pos rfl]
        refine refreshing_giveUp hrefresh hf (fun g hg ↦ hg)
          ((congrArg SlotCore.refresh hcore).trans ?_)
        rw [SlotCore.releaseRefresh]
        exact apply_ite SlotCore.refresh _ _ _
    | settleMcpRefreshClaim other fingerprint =>
        obtain rfl := Option.some.inj hop
        have hf := hends fingerprint (if_pos rfl)
        have hcore := coreAt_settleMcpRefreshClaim (s := h.state) other fingerprint other
        rw [if_pos rfl] at hcore
        rw [refreshStep, RefreshHistory.note, if_pos rfl]
        refine refreshing_giveUp hrefresh hf (p := none) (fun g hg ↦ by cases hg)
          ((congrArg SlotCore.refresh hcore).trans ?_)
        rw [SlotCore.settleRefresh]
        exact apply_ite SlotCore.refresh _ _ _
    | _ => cases hop
  · rw [refreshStep, note_of_other hop]
    exact hrefresh.keep (refreshAt_step hop)

theorem Refreshing.exclusive (hrefresh : Refreshing slotId h) : Exclusive slotId h :=
  ⟨hrefresh.one, fun _ hall hnone ↦ hrefresh.applied hnone hall⟩

theorem exclusive_step_iff (hrefresh : Refreshing slotId h) (hends : EndsClaim slotId h op) :
    Exclusive slotId (c.refreshStep slotId h op) ↔ AwaitsEnd slotId h op := by
  constructor
  · rintro hexclusive rfl hsuperseded
    have hout : h.outstanding ≠ [] := by
      intro hnil
      rw [hrefresh.idle hnil] at hsuperseded
      cases hsuperseded
    obtain ⟨-, hactive | hinProgress | hnone⟩ | ⟨fingerprint, s, hstep, -⟩ := claim_cases c h slotId
    · exact hactive
    · rw [hrefresh.inProgress, hsuperseded] at hinProgress
      cases hinProgress.2
    · have hwaiting := hrefresh.waiting hout
      rw [hnone] at hwaiting
      cases hwaiting
    · have hone := hexclusive.one
      rw [hstep, List.length_cons] at hone
      have hpos := List.length_pos_iff.mpr hout
      omega
  · intro hawaits
    exact (refreshing_step hrefresh hends hawaits).exclusive

/-- Claims are exclusive and converge throughout a run exactly when each claim awaits the end of one
that a deferral has superseded. -/
theorem exclusive_iff_awaitsEnd (c : SlotWorkCoordinator) (slotId : String)
    (ops : List CoordinatorOp)
    (hends : Meets (c.refreshStep slotId) (EndsClaim slotId) .initial ops) :
    Throughout (c.refreshStep slotId) (Exclusive slotId) .initial ops ↔
      Meets (c.refreshStep slotId) (AwaitsEnd slotId) .initial ops := by
  have hsteps : Throughout (c.refreshStep slotId) (Exclusive slotId) .initial ops ∧
      Meets (c.refreshStep slotId) (EndsClaim slotId) .initial ops ↔
      Exclusive slotId .initial ∧ Meets (c.refreshStep slotId)
        (fun h op ↦ Exclusive slotId (c.refreshStep slotId h op) ∧ EndsClaim slotId h op)
        .initial ops := throughout_and_meets
  have hiff : Meets (c.refreshStep slotId)
        (fun h op ↦ Exclusive slotId (c.refreshStep slotId h op) ∧ EndsClaim slotId h op)
        .initial ops ↔ Meets (c.refreshStep slotId) (AwaitsEnd slotId) .initial ops :=
    meets_iff_meets_of_meets
      (fun _ _ hrefresh hpremise hguard ↦ refreshing_step hrefresh hpremise hguard)
      (fun _ _ hrefresh hpremise ↦
        (and_iff_left hpremise).trans (exclusive_step_iff hrefresh hpremise))
      refreshing_initial hends
  constructor
  · intro hthroughout
    exact hiff.mp (hsteps.mp ⟨hthroughout, hends⟩).2
  · intro hawaits
    exact (hsteps.mpr ⟨refreshing_initial.exclusive, hiff.mpr hawaits⟩).1

end Steps

section Runs

instance (slotId : String) (h : RefreshHistory) (op : CoordinatorOp) :
    Decidable (EndsClaim slotId h op) :=
  inferInstanceAs (Decidable (∀ fingerprint ∈ endedClaim slotId op, fingerprint ∈ h.outstanding))

/-- Operations carry functions, so that only one kind of them is recognized here. -/
def CoordinatorOp.isRefreshClaim (slotId : String) : CoordinatorOp → Bool
  | .claimPendingMcpRefresh other => other = slotId
  | _ => false

theorem isRefreshClaim_iff {slotId : String} {op : CoordinatorOp} :
    op.isRefreshClaim slotId = true ↔ op = .claimPendingMcpRefresh slotId := by
  cases op <;> simp [CoordinatorOp.isRefreshClaim]

instance (slotId : String) (op : CoordinatorOp) :
    Decidable (op = .claimPendingMcpRefresh slotId) :=
  decidable_of_iff (op.isRefreshClaim slotId = true) isRefreshClaim_iff

instance (slotId : String) (h : RefreshHistory) (op : CoordinatorOp) :
    Decidable (AwaitsEnd slotId h op) :=
  inferInstanceAs (Decidable (op = .claimPendingMcpRefresh slotId → h.superseded = true →
    (h.state.activeBatch slotId).isSome))

/-- A request is deferred beside a claim, which is ended before the next one. -/
def awaitedClaims : List CoordinatorOp :=
  [.requestMcpRefresh "s" "old", .claimPendingMcpRefresh "s", .requestMcpRefresh "s" "new",
    .completeMcpRefresh "s" "old", .claimPendingMcpRefresh "s", .completeMcpRefresh "s" "new"]

theorem awaitedClaims_exclusive :
    Throughout (tallied.refreshStep "s") (Exclusive "s") .initial awaitedClaims :=
  (exclusive_iff_awaitsEnd tallied "s" awaitedClaims (by decide)).mpr (by decide)

/-- The second request takes the mark of the running refresh away. -/
theorem second_claim_beside_first :
    ¬ ∀ (c : SlotWorkCoordinator) (slotId : String) (ops : List CoordinatorOp),
      Meets (c.refreshStep slotId) (EndsClaim slotId) .initial ops →
      Throughout (c.refreshStep slotId) (Exclusive slotId) .initial ops := by
  intro h
  have hlast := (h tallied "s"
    [.requestMcpRefresh "s" "old", .claimPendingMcpRefresh "s", .requestMcpRefresh "s" "new",
      .claimPendingMcpRefresh "s"] (by decide)).last.one
  revert hlast
  decide

end Runs

end Zaowutai.Team
