import Zaowutai.Team.ReportSteps

/-!
# Every finished run is reported finished

A session reports its current run finished as soon as the run has no work left,
unless an operation ends the last intents of the run without reporting it.
-/

namespace Zaowutai.Team

open Zaowutai.Lib SlotWorkCoordinator

structure LeasesKeyed (c : SlotWorkCoordinator) (s : CoordinatorState) : Prop where
  keys : ∀ id record, s.enqueueLeases.lookup id = some record → record.lease.leaseId = id
  drawn : ∀ id record, s.enqueueLeases.lookup id = some record →
    ∃ k < s.generated, id = c.generateId k

section Acquire

variable {c : SlotWorkCoordinator} {s : CoordinatorState} {m : TeamRunManager}

theorem acquire_cases (c : SlotWorkCoordinator) (s : CoordinatorState) (answers : PortAnswers)
    (request : EnqueueRequest) :
    (c.acquireEnqueue s answers request).state.intents = s.intents ∧
      (((c.acquireEnqueue s answers request).calls = [] ∧
          (c.acquireEnqueue s answers request).state.enqueueLeases = s.enqueueLeases) ∨
        ∃ record : EnqueueLeaseRecord, record.lease.leaseId = c.generateId s.generated ∧
          (c.acquireEnqueue s answers request).state.generated = s.generated + 1 ∧
          (c.acquireEnqueue s answers request).state.enqueueLeases =
            s.enqueueLeases.insert (c.generateId s.generated) record ∧
          ((c.acquireEnqueue s answers request).calls = [] ∨
            (c.acquireEnqueue s answers request).calls = [.bindEnqueue request] ∧
              record.lease.teamRunId = (answers.bindEnqueue request).teamRunId ∨
            (c.acquireEnqueue s answers request).calls = [.bindSystemEnqueue request] ∧
              record.lease.teamRunId = (answers.bindSystemEnqueue request).teamRunId)) := by
  unfold acquireEnqueue
  simp only
  split
  · exact ⟨rfl, Or.inl ⟨rfl, rfl⟩⟩
  · refine ⟨rfl, Or.inr ⟨_, rfl, rfl, rfl, ?_⟩⟩
    unfold CoordinatorState.resolveBinding
    simp only
    split
    · exact Or.inl rfl
    · split
      · exact Or.inl rfl
      · exact Or.inr (Or.inr ⟨rfl, rfl⟩)
    · exact Or.inr (Or.inl ⟨rfl, rfl⟩)
    · exact Or.inr (Or.inl ⟨rfl, rfl⟩)
    · split
      · exact Or.inl rfl
      · exact Or.inr (Or.inr ⟨rfl, rfl⟩)

theorem mem_bindSystemEnqueue {runs : TeamRunState} {slotId : String} {role : TeamRunTargetRole}
    {next : TeamRunRecord} (hnext : next ∈ (m.bindSystemEnqueue runs slotId role).1.record) :
    (m.bindSystemEnqueue runs slotId role).2.teamRunId = some next.teamRunId ∨
      next ∈ runs.record := by
  unfold TeamRunManager.bindSystemEnqueue at hnext ⊢
  split at hnext
  · exact Or.inr hnext
  · next hnone =>
      obtain rfl : _ = next := Option.some.inj hnext
      exact Or.inl rfl

theorem mem_bindUserEnqueue {runs : TeamRunState} {slotId : String} {role : TeamRunTargetRole}
    {next : TeamRunRecord} (hnext : next ∈ (m.bindUserEnqueue runs slotId role).1.record) :
    (m.bindUserEnqueue runs slotId role).2.teamRunId = some next.teamRunId := by
  unfold TeamRunManager.bindUserEnqueue at hnext ⊢
  split at hnext
  · obtain rfl : _ = next := Option.some.inj hnext
    rfl
  · obtain rfl : _ = next := Option.some.inj hnext
    rfl

theorem mem_bindEnqueue {runs : TeamRunState} {request : EnqueueRequest} {next : TeamRunRecord}
    (hnext : next ∈ (m.bindEnqueue runs request).1.record) :
    (m.bindEnqueue runs request).2.teamRunId = some next.teamRunId ∨ next ∈ runs.record := by
  unfold TeamRunManager.bindEnqueue at hnext ⊢
  cases hbinding : request.binding with
  | userVisible =>
      simp only [hbinding] at hnext ⊢
      exact Or.inl (mem_bindUserEnqueue hnext)
  | systemInitiated inheritFrom =>
      simp only [hbinding] at hnext ⊢
      exact mem_bindSystemEnqueue hnext
  | inheritRunningBatch callerSlotId =>
      simp only [hbinding] at hnext
      exact Or.inr hnext
  | activeRunOrBackground =>
      simp only [hbinding] at hnext
      exact Or.inr hnext
  | background =>
      simp only [hbinding] at hnext
      exact Or.inr hnext

theorem busy_acquireEnqueue (hleases : LeasesKeyed c s) (answers : PortAnswers)
    (request : EnqueueRequest) {r : String} (hbusy : s.isBusy r = true) :
    (c.acquireEnqueue s answers request).state.isBusy r = true := by
  obtain ⟨hintents, hcases⟩ := acquire_cases c s answers request
  refine CoordinatorState.isBusy_iff.mpr ?_
  rw [hintents]
  rcases CoordinatorState.isBusy_iff.mp hbusy with hintent | ⟨leaseId, record, hrecord, hrun⟩
  · exact Or.inl hintent
  · refine Or.inr ⟨leaseId, record, ?_, hrun⟩
    rcases hcases with ⟨_, hsame⟩ | ⟨new, _, _, hinsert, _⟩
    · rw [hsame]
      exact hrecord
    · rw [hinsert, Table.lookup_insert_eq, if_neg, hrecord]
      rintro rfl
      obtain ⟨k, hk, heq⟩ := hleases.drawn _ _ hrecord
      have := c.generateId_injective heq
      omega

theorem busy_of_binding {answers : PortAnswers} {request : EnqueueRequest} {r : String}
    {record : EnqueueLeaseRecord}
    (hinsert : (c.acquireEnqueue s answers request).state.enqueueLeases =
      s.enqueueLeases.insert (c.generateId s.generated) record)
    (hrun : record.lease.teamRunId = some r) :
    (c.acquireEnqueue s answers request).state.isBusy r = true :=
  CoordinatorState.isBusy_iff.mpr
    (Or.inr ⟨_, record, by rw [hinsert, AList.lookup_insert], hrun⟩)

end Acquire

structure SessionKnown (x : RunSession) (s : RunSessionState) : Prop where
  keyed : Keyed x.coordinator s.work
  leases : LeasesKeyed x.coordinator s.work

def LeavesWork (x : RunSession) (s : RunSessionState) : RunSessionOp → Prop
  | .perform op _ => ∀ run ∈ s.runs.record, run.isActive = true →
      run.teamRunId ∉ op.reportedRuns →
        s.work.busyWithout (x.coordinator.blindlyEnded s.work op) run.teamRunId = true
  | .beginCancel _ _ _ => True

section Session

variable {x : RunSession} {s : RunSessionState}

theorem sessionKnown_initial : SessionKnown x .initial where
  keyed := keyed_empty
  leases := ⟨by simp [RunSessionState.initial, CoordinatorState.empty],
    by simp [RunSessionState.initial, CoordinatorState.empty]⟩

theorem endReported_initial : EndReported .initial := by
  simp [EndReported, RunSessionState.initial, TeamRunManager.initial]

theorem leasesKeyed_perform {c : SlotWorkCoordinator} {s : CoordinatorState} (hkeyed : Keyed c s)
    (hleases : LeasesKeyed c s) (op : CoordinatorOp) : LeasesKeyed c (c.step s op) := by
  have hgen := (identified_step hkeyed op).generated
  have hold : ∀ id record, s.enqueueLeases.lookup id = some record →
      record.lease.leaseId = id ∧ ∃ k < (c.step s op).generated, id = c.generateId k := by
    intro id record hi
    obtain ⟨k, hk, hid⟩ := hleases.drawn id record hi
    exact ⟨hleases.keys id record hi, k, hk.trans_le hgen, hid⟩
  have hnew : ∀ id record, (c.step s op).enqueueLeases.lookup id = some record →
      record.lease.leaseId = id ∧ ∃ k < (c.step s op).generated, id = c.generateId k := by
    intro id record hi
    by_cases hop : ∃ answers request, op = .acquireEnqueue answers request
    · obtain ⟨answers, request, rfl⟩ := hop
      rcases (acquire_cases c s answers request).2 with
        ⟨_, hsame⟩ | ⟨new, hkey, hgen', hinsert, _⟩
      · exact hold id record (hsame ▸ hi)
      · change (c.acquireEnqueue s answers request).state.enqueueLeases.lookup id = _ at hi
        rw [hinsert, Table.lookup_insert_eq] at hi
        split at hi
        · next heq =>
            cases hi
            refine ⟨hkey.trans heq.symm, s.generated, ?_, heq⟩
            change _ < (c.acquireEnqueue s answers request).state.generated
            omega
        · exact hold id record hi
    · have heffect := effect_perform hkeyed hleases.keys
        (fun answers request heq ↦ hop ⟨answers, request, heq⟩)
      exact hold id record (heffect.leases id record hi)
  exact ⟨fun id record hi ↦ (hnew id record hi).1, fun id record hi ↦ (hnew id record hi).2⟩

theorem sessionKnown_step (hknown : SessionKnown x s) (op : RunSessionOp) :
    SessionKnown x (x.step s op) := by
  cases op with
  | beginCancel teamRunId reason now => exact ⟨hknown.keyed, hknown.leases⟩
  | perform op now =>
      exact ⟨(identified_step hknown.keyed _).keyed, leasesKeyed_perform hknown.keyed hknown.leases _⟩

theorem endReported_beginCancel (hend : EndReported s) (teamRunId : String)
    (reason : Option String) (now : ℤ) :
    EndReported (x.step s (.beginCancel teamRunId reason now)) := by
  intro next hnext hidle
  change s.work.isBusy next.teamRunId = false at hidle
  change next ∈ (x.manager.step s.runs (.beginCancel teamRunId reason now)).record at hnext
  cases hfilter : s.runs.record.filter fun run ↦ run.teamRunId = teamRunId && run.isActive with
  | none =>
      simp only [TeamRunManager.step, TeamRunManager.beginCancel, hfilter] at hnext
      exact hend next hnext hidle
  | some run =>
      obtain ⟨hrun, hmatch⟩ := Option.filter_eq_some_iff.mp hfilter
      simp only [Bool.and_eq_true, decide_eq_true_eq] at hmatch
      simp only [TeamRunManager.step, TeamRunManager.beginCancel, hfilter] at hnext
      obtain rfl := Option.some.inj hnext
      exact absurd (hmatch.2.symm.trans (hend run hrun hidle)) (by simp)

theorem endReported_acquire (hknown : SessionKnown x s) (hend : EndReported s)
    (answers : PortAnswers) (request : EnqueueRequest) (now : ℤ) :
    EndReported (x.step s (.perform (.acquireEnqueue answers request) now)) := by
  intro next hnext hidle
  let outcome := x.coordinator.acquireEnqueue s.work (x.manager.answers s.runs) request
  change next ∈ (outcome.calls.foldl (x.manager.deliver now) s.runs).record at hnext
  change outcome.state.isBusy next.teamRunId = false at hidle
  have hkept : next ∈ s.runs.record → next.isActive = false := by
    intro hold
    refine hend next hold (by_contra fun hbusy ↦ ?_)
    have hbusy' := busy_acquireEnqueue hknown.leases (x.manager.answers s.runs) request
      (by simpa using hbusy)
    exact absurd (hidle.symm.trans hbusy') (by simp)
  have hbound : ∀ record : EnqueueLeaseRecord, outcome.state.enqueueLeases =
      s.work.enqueueLeases.insert (x.coordinator.generateId s.work.generated) record →
        record.lease.teamRunId ≠ some next.teamRunId := by
    intro record hinsert hrun
    exact absurd (hidle.symm.trans (busy_of_binding hinsert hrun)) (by simp)
  rcases (acquire_cases x.coordinator s.work (x.manager.answers s.runs) request).2 with
    ⟨hcalls, _⟩ | ⟨record, _, _, hinsert, hcalls | ⟨hcalls, hrun⟩ | ⟨hcalls, hrun⟩⟩
  · rw [show outcome.calls = [] from hcalls] at hnext
    exact hkept hnext
  · rw [show outcome.calls = [] from hcalls] at hnext
    exact hkept hnext
  · rw [show outcome.calls = [.bindEnqueue request] from hcalls] at hnext
    rcases mem_bindEnqueue hnext with hbinding | hold
    · exact absurd (hrun.trans hbinding) (hbound record hinsert)
    · exact hkept hold
  · rw [show outcome.calls = [.bindSystemEnqueue request] from hcalls] at hnext
    rcases mem_bindSystemEnqueue hnext with hbinding | hold
    · exact absurd (hrun.trans hbinding) (hbound record hinsert)
    · exact hkept hold

theorem endReported_perform (hknown : SessionKnown x s) (hend : EndReported s) {op : CoordinatorOp}
    (hop : ∀ answers request, op ≠ .acquireEnqueue answers request) (now : ℤ) :
    EndReported (x.step s (.perform op now)) ↔ LeavesWork x s (.perform op now) := by
  have hanswered : op.answered (x.manager.answers s.runs) = op := by
    cases op with
    | acquireEnqueue answers request => exact (hop answers request rfl).elim
    | _ => rfl
  have hbusy : ∀ run ∈ s.runs.record, run.isActive = true →
      s.work.isBusy run.teamRunId = true := by
    intro run hrun hactive
    by_contra hidle
    exact absurd (hactive.symm.trans (hend run hrun (by simpa using hidle))) (by simp)
  have heffect := effect_perform hknown.keyed hknown.leases.keys hop
  have hstep : x.step s (.perform op now) = ⟨(x.coordinator.perform s.work op).1,
      (x.coordinator.perform s.work op).2.foldl (x.manager.deliver now) s.runs⟩ := by
    simp only [RunSession.step, hanswered]
  rw [hstep]
  constructor
  · intro hend' run hrun hactive hreported
    by_cases hended : x.coordinator.blindlyEnded s.work op = []
    · rw [hended]
      exact hbusy run hrun hactive
    · refine heffect.silent hended run.teamRunId hreported (by_contra fun hidle ↦ ?_)
      have hsame : (x.coordinator.perform s.work op).2.foldl (x.manager.deliver now) s.runs =
          s.runs := by
        refine deliver_others (fun call hcall ↦ ?_) hrun
        rcases heffect.others hended call hcall with hslot | ⟨summary, hsummary, hid⟩
        · exact Or.inl hslot
        · exact Or.inr ⟨summary, hsummary, fun heq ↦ hreported (heq ▸ hid)⟩
      have hinactive := hend' run (by rw [hsame]; exact hrun) (by simpa using hidle)
      exact absurd (hactive.symm.trans hinactive) (by simp)
  · intro hleaves next hnext hidle
    obtain ⟨run, hrun, hid, hsettled | ⟨hstatus, hsilent⟩⟩ :=
      deliver_calls heffect.reports hnext
    · exact hsettled hidle
    · rw [TeamRunRecord.isActive, hstatus]
      by_contra hactive
      have hactive' : run.isActive = true := by simpa [TeamRunRecord.isActive] using hactive
      have hwork : s.work.busyWithout (x.coordinator.blindlyEnded s.work op) run.teamRunId =
          true := by
        by_cases hended : x.coordinator.blindlyEnded s.work op = []
        · rw [hended]
          exact hbusy run hrun hactive'
        · exact hleaves run hrun hactive' fun hreported ↦
            hsilent (heffect.told hended run.teamRunId hreported)
      rcases heffect.kept run.teamRunId hwork with hreport | hbusy'
      · exact hsilent hreport
      · rw [← hid] at hbusy'
        exact absurd (hidle.symm.trans hbusy') (by simp)

theorem endReported_step (hknown : SessionKnown x s) (hend : EndReported s) (op : RunSessionOp) :
    EndReported (x.step s op) ↔ LeavesWork x s op := by
  cases op with
  | beginCancel teamRunId reason now =>
      exact iff_of_true (endReported_beginCancel hend teamRunId reason now) trivial
  | perform op now =>
      by_cases hop : ∃ answers request, op = .acquireEnqueue answers request
      · obtain ⟨answers, request, rfl⟩ := hop
        refine iff_of_true (endReported_acquire hknown hend answers request now) ?_
        intro run hrun hactive _
        by_contra hidle
        have hinactive := hend run hrun (eq_false_of_ne_true hidle)
        exact absurd (hactive.symm.trans hinactive) (by simp)
      · exact endReported_perform hknown hend
          (fun answers request heq ↦ hop ⟨answers, request, heq⟩) now

end Session

/-- For every run of the session: a current run without work is reported finished after every
operation exactly when no operation blindly ends its last work. -/
theorem finished_runs_reported_iff (x : RunSession) (ops : List RunSessionOp) :
    Throughout x.step EndReported .initial ops ↔ Meets x.step (LeavesWork x) .initial ops :=
  throughout_iff_meets (Q := SessionKnown x) (fun _ op hknown ↦ sessionKnown_step hknown op)
    (fun _ op hknown hend ↦ endReported_step hknown hend op) sessionKnown_initial
    endReported_initial

def talliedSession : RunSession := ⟨tallied, talliedRuns⟩

def clearOnly : List RunSessionOp :=
  [.perform (.setRuntimeConstraint "s" .ready) 0,
    .perform (.acquireEnqueue ⟨fun _ ↦ ⟨none, false, false⟩, fun _ ↦ ⟨none, false, false⟩⟩
      ⟨"s", .lead, .userMessage, .userVisible⟩) 0,
    .perform (.commitEnqueue ⟨"", "g", "s", .lead, .userMessage, some ""⟩ (some "m") 0) 0,
    .perform (.reconcileMailboxSnapshot "s" [] .lead ["|"] 0) 0]

theorem clearOnly_not_reported : ¬ Throughout talliedSession.step EndReported .initial clearOnly := by
  intro h
  have hrecord : (run talliedSession.step .initial clearOnly).runs.record.map
      (fun run ↦ (run.teamRunId, run.isActive)) = some ("", true) := by decide
  have hidle : (run talliedSession.step .initial clearOnly).work.isBusy "" = false := by decide
  obtain ⟨run, hrun, hpair⟩ := Option.map_eq_some_iff.mp hrecord
  obtain ⟨hid, hactive⟩ := Prod.mk.inj hpair
  have hinactive := h.last run hrun (hid ▸ hidle)
  exact absurd (hactive.symm.trans hinactive) (by simp)

end Zaowutai.Team
