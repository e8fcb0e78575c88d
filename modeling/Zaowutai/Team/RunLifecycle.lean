import Zaowutai.Lib.Run
import Zaowutai.Team.TeamRun

/-!
# The lifecycle of a team run

Work summaries are published after the coordinator has released its lock, so a
summary may arrive late.  The status of a run goes one way exactly when no late
summary reports running work of a run that is ending or has ended, or an empty
run after a cancellation that has already been settled.
-/

namespace Zaowutai.Team

open Zaowutai.Lib

inductive TeamRunOp
  | bindUserEnqueue (targetSlotId : String) (targetRole : TeamRunTargetRole)
  | bindSystemEnqueue (targetSlotId : String) (targetRole : TeamRunTargetRole)
  | beginCancel (teamRunId : String) (reason : Option String) (now : ℤ)
  | abortBinding (binding : RunBinding)
  | applyWorkSummary (summary : RunWorkSummary) (now : ℤ)

structure RunHistory where
  state : TeamRunState
  /-- The runs whose record was no longer active at some moment. -/
  ended : List String
  /-- The runs for which a cancellation was begun. -/
  cancelBegun : List String

namespace TeamRunManager

variable (m : TeamRunManager)

def step (state : TeamRunState) : TeamRunOp → TeamRunState
  | .bindUserEnqueue targetSlotId targetRole => (m.bindUserEnqueue state targetSlotId targetRole).1
  | .bindSystemEnqueue targetSlotId targetRole =>
      (m.bindSystemEnqueue state targetSlotId targetRole).1
  | .beginCancel teamRunId reason now =>
      match m.beginCancel state teamRunId reason now with
      | .ok (next, _) => next
      | .error _ => state
  | .abortBinding binding => abortBinding state binding
  | .applyWorkSummary summary now => (m.applyWorkSummary state summary now).1

def begun (state : TeamRunState) : TeamRunOp → List String
  | .beginCancel teamRunId reason now =>
      if (m.beginCancel state teamRunId reason now).isOk then [teamRunId] else []
  | _ => []

def endedRuns (state : TeamRunState) : List String :=
  (state.record.filter fun run ↦ !run.isActive).toList.map TeamRunRecord.teamRunId

def historyStep (h : RunHistory) (op : TeamRunOp) : RunHistory where
  state := m.step h.state op
  ended := endedRuns (m.step h.state op) ++ h.ended
  cancelBegun := m.begun h.state op ++ h.cancelBegun

end TeamRunManager

def RunHistory.initial : RunHistory := ⟨TeamRunManager.initial, [], []⟩

open TeamRunManager

structure OneWay (h : RunHistory) : Prop where
  ended : ∀ run ∈ h.state.record, run.teamRunId ∈ h.ended → run.isActive = false
  cancelled : ∀ run ∈ h.state.record, run.teamRunId ∈ h.cancelBegun →
    run.status ≠ .running ∧ run.status ≠ .completed

def InOrder (h : RunHistory) : TeamRunOp → Prop
  | .applyWorkSummary summary _ => summary.failedIntentCount = 0 →
      ∀ run ∈ h.state.record, run.teamRunId = summary.teamRunId →
        (summary.noWork = true → run.teamRunId ∈ h.cancelBegun → run.status = .cancelling) ∧
        (summary.noWork = false → 0 < summary.runningBatchCount →
          run.status = .accepted ∨ run.status = .running)
  | _ => True

structure RunsKnown (m : TeamRunManager) (h : RunHistory) : Prop where
  drawn : ∀ run ∈ h.state.record, ∃ k < h.state.generated, run.teamRunId = m.generateId k
  seen : ∀ id, id ∈ h.ended ∨ id ∈ h.cancelBegun → ∃ k < h.state.generated, id = m.generateId k
  ended : ∀ run ∈ h.state.record, run.isActive = false → run.teamRunId ∈ h.ended
  cancelling : ∀ run ∈ h.state.record, run.status = .cancelling → run.teamRunId ∈ h.cancelBegun
  accepted : ∀ run ∈ h.state.record, run.status = .accepted → run.teamRunId ∉ h.cancelBegun

section Moves

variable {m : TeamRunManager} {state : TeamRunState}

inductive Moved (m : TeamRunManager) (state : TeamRunState) (op : TeamRunOp)
    (next : TeamRunRecord) : Prop
  | opened (hid : next.teamRunId = m.generateId state.generated) (hstatus : next.status = .accepted)
      (hgen : (m.step state op).generated = state.generated + 1) (hbegun : m.begun state op = [])
      (horder : ∀ h : RunHistory, InOrder h op)
  | kept (run : TeamRunRecord) (hrun : run ∈ state.record) (hid : next.teamRunId = run.teamRunId)
      (hstatus : next.status = run.status) (hbegun : m.begun state op = [])
      (horder : ∀ h : RunHistory, h.state = state → InOrder h op)
  | cancelled (run : TeamRunRecord) (hrun : run ∈ state.record) (hactive : run.isActive = true)
      (hid : next.teamRunId = run.teamRunId) (hstatus : next.status = .cancelling)
      (hbegun : m.begun state op = [run.teamRunId]) (horder : ∀ h : RunHistory, InOrder h op)
  | summarized (run : TeamRunRecord) (summary : RunWorkSummary) (now : ℤ)
      (hop : op = .applyWorkSummary summary now) (hrun : run ∈ state.record)
      (hmatch : run.teamRunId = summary.teamRunId) (hid : next.teamRunId = run.teamRunId)
      (hstatus : next.status = run.statusAfter summary)

theorem moved_openRun {op : TeamRunOp} (source : TeamRunSource) (slotId : String)
    (role : TeamRunTargetRole) {next : TeamRunRecord}
    (hstep : m.step state op = (m.openRun state source slotId role).1)
    (hbegun : m.begun state op = []) (horder : ∀ h : RunHistory, InOrder h op)
    (hnext : next ∈ (m.step state op).record) : Moved m state op next := by
  rw [hstep] at hnext
  obtain rfl : _ = next := Option.some.inj hnext
  exact .opened rfl rfl (by rw [hstep]; rfl) hbegun horder

theorem mem_activeRun {run : TeamRunRecord} :
    activeRun state = some run ↔ run ∈ state.record ∧ run.isActive = true := by
  unfold activeRun
  rw [Option.filter_eq_some_iff]
  rfl

theorem moved_bindUserEnqueue {slotId : String} {role : TeamRunTargetRole} {next : TeamRunRecord}
    (hnext : next ∈ (m.step state (.bindUserEnqueue slotId role)).record) :
    Moved m state (.bindUserEnqueue slotId role) next := by
  cases hrun : activeRun state with
  | some run =>
      simp only [TeamRunManager.step, bindUserEnqueue, hrun] at hnext
      obtain rfl := Option.some.inj hnext
      exact .kept run (mem_activeRun.mp hrun).1 rfl rfl rfl fun _ _ ↦ trivial
  | none =>
      refine moved_openRun .userMessage slotId role ?_ rfl (fun _ ↦ trivial) hnext
      simp only [TeamRunManager.step, bindUserEnqueue, hrun]

theorem moved_bindSystemEnqueue {slotId : String} {role : TeamRunTargetRole}
    {next : TeamRunRecord}
    (hnext : next ∈ (m.step state (.bindSystemEnqueue slotId role)).record) :
    Moved m state (.bindSystemEnqueue slotId role) next := by
  cases hrun : activeRun state with
  | some run =>
      simp only [TeamRunManager.step, bindSystemEnqueue, hrun] at hnext
      exact .kept next hnext rfl rfl rfl fun _ _ ↦ trivial
  | none =>
      refine moved_openRun .systemLifecycle slotId role ?_ rfl (fun _ ↦ trivial) hnext
      simp only [TeamRunManager.step, bindSystemEnqueue, hrun]

theorem moved_beginCancel {id : String} {reason : Option String} {now : ℤ} {next : TeamRunRecord}
    (hnext : next ∈ (m.step state (.beginCancel id reason now)).record) :
    Moved m state (.beginCancel id reason now) next := by
  cases hfilter : state.record.filter fun run ↦ run.teamRunId = id && run.isActive with
  | some run =>
      obtain ⟨hrun, hmatch⟩ := Option.filter_eq_some_iff.mp hfilter
      simp only [Bool.and_eq_true, decide_eq_true_eq] at hmatch
      simp only [TeamRunManager.step, beginCancel, hfilter] at hnext
      obtain rfl := Option.some.inj hnext
      refine .cancelled run hrun hmatch.2 rfl rfl ?_ fun _ ↦ trivial
      simp [begun, beginCancel, hfilter, Except.isOk, Except.toBool, hmatch.1]
  | none =>
      simp only [TeamRunManager.step, beginCancel, hfilter] at hnext
      refine .kept next hnext rfl rfl ?_ fun _ _ ↦ trivial
      simp [begun, beginCancel, hfilter, Except.isOk, Except.toBool]

theorem moved_abortBinding {binding : RunBinding} {next : TeamRunRecord}
    (hnext : next ∈ (m.step state (.abortBinding binding)).record) :
    Moved m state (.abortBinding binding) next := by
  simp only [TeamRunManager.step, abortBinding] at hnext
  split at hnext
  · simp at hnext
  · exact .kept next hnext rfl rfl rfl fun _ _ ↦ trivial

theorem moved_applyWorkSummary {summary : RunWorkSummary} {now : ℤ} {next : TeamRunRecord}
    (hnext : next ∈ (m.step state (.applyWorkSummary summary now)).record) :
    Moved m state (.applyWorkSummary summary now) next := by
  cases hfilter : state.record.filter fun run ↦ run.teamRunId = summary.teamRunId with
  | some run =>
      obtain ⟨hrun, hmatch⟩ := Option.filter_eq_some_iff.mp hfilter
      simp only [TeamRunManager.step, applyWorkSummary, hfilter] at hnext
      obtain rfl := Option.some.inj hnext
      exact .summarized run summary now rfl hrun (of_decide_eq_true hmatch) rfl rfl
  | none =>
      simp only [TeamRunManager.step, applyWorkSummary, hfilter] at hnext
      refine .kept next hnext rfl rfl rfl fun h hstate _ run hrun hmatch ↦ ?_
      rw [hstate] at hrun
      have hno := Option.filter_eq_none_iff.mp hfilter run hrun
      exact absurd (decide_eq_true hmatch) hno

theorem moved (op : TeamRunOp) {next : TeamRunRecord} (hnext : next ∈ (m.step state op).record) :
    Moved m state op next := by
  cases op with
  | bindUserEnqueue slotId role => exact moved_bindUserEnqueue hnext
  | bindSystemEnqueue slotId role => exact moved_bindSystemEnqueue hnext
  | beginCancel id reason now => exact moved_beginCancel hnext
  | abortBinding binding => exact moved_abortBinding hnext
  | applyWorkSummary summary now => exact moved_applyWorkSummary hnext

theorem generated_le_step (op : TeamRunOp) : state.generated ≤ (m.step state op).generated := by
  cases op with
  | bindUserEnqueue slotId role =>
      cases hrun : activeRun state <;>
        simp [TeamRunManager.step, bindUserEnqueue, hrun, openRun]
  | bindSystemEnqueue slotId role =>
      cases hrun : activeRun state <;>
        simp [TeamRunManager.step, bindSystemEnqueue, hrun, openRun]
  | beginCancel id reason now =>
      cases hrun : state.record.filter fun run ↦ run.teamRunId = id && run.isActive <;>
        simp [TeamRunManager.step, beginCancel, hrun]
  | abortBinding binding =>
      simp only [TeamRunManager.step, abortBinding]
      split <;> exact le_rfl
  | applyWorkSummary summary now =>
      cases hrun : state.record.filter fun run ↦ run.teamRunId = summary.teamRunId <;>
        simp [TeamRunManager.step, applyWorkSummary, hrun]

theorem mem_begun {op : TeamRunOp} {id : String} (h : id ∈ m.begun state op) :
    ∃ run ∈ state.record, run.teamRunId = id := by
  cases op with
  | beginCancel teamRunId reason now =>
      cases hfilter : state.record.filter fun run ↦ run.teamRunId = teamRunId && run.isActive with
      | some run =>
          obtain ⟨hrun, hmatch⟩ := Option.filter_eq_some_iff.mp hfilter
          simp only [Bool.and_eq_true, decide_eq_true_eq] at hmatch
          simp [begun, beginCancel, hfilter, Except.isOk, Except.toBool] at h
          exact ⟨run, hrun, hmatch.1.trans h.symm⟩
      | none => simp [begun, beginCancel, hfilter, Except.isOk, Except.toBool] at h
  | _ => simp [begun] at h

theorem mem_endedRuns {id : String} :
    id ∈ endedRuns state ↔ ∃ run ∈ state.record, run.isActive = false ∧ run.teamRunId = id := by
  simp [endedRuns, Option.mem_toList, Option.filter_eq_some_iff, and_assoc]

end Moves

section Lifecycle

variable {m : TeamRunManager} {h : RunHistory}

theorem runsKnown_initial : RunsKnown m .initial where
  drawn := by simp [RunHistory.initial, TeamRunManager.initial]
  seen := by simp [RunHistory.initial]
  ended := by simp [RunHistory.initial, TeamRunManager.initial]
  cancelling := by simp [RunHistory.initial, TeamRunManager.initial]
  accepted := by simp [RunHistory.initial, TeamRunManager.initial]

theorem oneWay_initial : OneWay .initial where
  ended := by simp [RunHistory.initial, TeamRunManager.initial]
  cancelled := by simp [RunHistory.initial, TeamRunManager.initial]

theorem RunsKnown.fresh (hknown : RunsKnown m h) :
    m.generateId h.state.generated ∉ h.ended ∧
      m.generateId h.state.generated ∉ h.cancelBegun := by
  constructor <;> intro hmem
  · obtain ⟨k, hk, heq⟩ := hknown.seen _ (Or.inl hmem)
    have := m.generateId_injective heq
    omega
  · obtain ⟨k, hk, heq⟩ := hknown.seen _ (Or.inr hmem)
    have := m.generateId_injective heq
    omega

theorem drawn_step (hknown : RunsKnown m h) (op : TeamRunOp) :
    ∀ run ∈ (m.step h.state op).record,
      ∃ k < (m.step h.state op).generated, run.teamRunId = m.generateId k := by
  intro next hnext
  have hgen : h.state.generated ≤ (m.step h.state op).generated := generated_le_step op
  have hold : ∀ run ∈ h.state.record, next.teamRunId = run.teamRunId →
      ∃ k < (m.step h.state op).generated, next.teamRunId = m.generateId k := by
    intro run hrun hid
    obtain ⟨k, hk, heq⟩ := hknown.drawn run hrun
    exact ⟨k, hk.trans_le hgen, hid.trans heq⟩
  cases moved op hnext with
  | opened hid _ hgen' _ _ => exact ⟨h.state.generated, by omega, hid⟩
  | kept run hrun hid _ _ _ => exact hold run hrun hid
  | cancelled run hrun _ hid _ _ _ => exact hold run hrun hid
  | summarized run _ _ _ hrun _ hid _ => exact hold run hrun hid

theorem statusAfter_active {run : TeamRunRecord} {summary : RunWorkSummary} {status : TeamRunStatus}
    (hstatus : run.statusAfter summary = status)
    (hkept : status = .accepted ∨ status = .cancelling) : run.status = status := by
  unfold TeamRunRecord.statusAfter at hstatus
  split at hstatus
  · rcases hkept with rfl | rfl <;> cases hstatus
  · split at hstatus
    · split at hstatus <;> rcases hkept with rfl | rfl <;> cases hstatus
    · split at hstatus
      · rcases hkept with rfl | rfl <;> cases hstatus
      · exact hstatus

theorem runsKnown_step (hknown : RunsKnown m h) (op : TeamRunOp) :
    RunsKnown m (m.historyStep h op) where
  drawn := drawn_step hknown op
  seen id hid := by
    have hgen : h.state.generated ≤ (m.step h.state op).generated := generated_le_step op
    have hseen : id ∈ h.ended ∨ id ∈ h.cancelBegun →
        ∃ k < (m.step h.state op).generated, id = m.generateId k := by
      intro hid
      obtain ⟨k, hk, heq⟩ := hknown.seen id hid
      exact ⟨k, hk.trans_le hgen, heq⟩
    simp only [TeamRunManager.historyStep, List.mem_append] at hid
    rcases hid with (hid | hid) | hid | hid
    · obtain ⟨run, hrun, _, rfl⟩ := mem_endedRuns.mp hid
      exact drawn_step hknown op run hrun
    · exact hseen (Or.inl hid)
    · obtain ⟨run, hrun, rfl⟩ := mem_begun hid
      obtain ⟨k, hk, heq⟩ := hknown.drawn run hrun
      exact ⟨k, hk.trans_le hgen, heq⟩
    · exact hseen (Or.inr hid)
  ended run hrun hended := List.mem_append_left _ (mem_endedRuns.mpr ⟨run, hrun, hended, rfl⟩)
  cancelling next hnext hstatus := by
    refine List.mem_append.mpr ?_
    cases moved op hnext with
    | opened _ hstatus' _ _ _ => cases hstatus'.symm.trans hstatus
    | kept run hrun hid hstatus' _ _ =>
        exact Or.inr (hid ▸ hknown.cancelling run hrun (hstatus'.symm.trans hstatus))
    | cancelled run _ _ hid _ hbegun _ => exact Or.inl (by rw [hbegun, hid]; simp)
    | summarized run summary _ _ hrun _ hid hstatus' =>
        have hold := statusAfter_active (hstatus'.symm.trans hstatus) (Or.inr rfl)
        exact Or.inr (hid ▸ hknown.cancelling run hrun hold)
  accepted next hnext hstatus := by
    simp only [TeamRunManager.historyStep, List.mem_append]
    cases moved op hnext with
    | opened hid _ _ hbegun _ =>
        rw [hbegun, hid]
        simpa using hknown.fresh.2
    | kept run hrun hid hstatus' hbegun _ =>
        rw [hbegun, hid]
        simpa using hknown.accepted run hrun (hstatus'.symm.trans hstatus)
    | cancelled run _ _ _ hstatus' _ _ => cases hstatus'.symm.trans hstatus
    | summarized run summary now hop hrun _ hid hstatus' =>
        have hold := statusAfter_active (hstatus'.symm.trans hstatus) (Or.inl rfl)
        rw [hop, hid]
        simpa [begun] using hknown.accepted run hrun hold

theorem oneWay_historyStep (op : TeamRunOp) :
    OneWay (m.historyStep h op) ↔ ∀ next ∈ (m.step h.state op).record,
      (next.teamRunId ∈ h.ended → next.isActive = false) ∧
        (next.teamRunId ∈ m.begun h.state op ∨ next.teamRunId ∈ h.cancelBegun →
          next.status ≠ .running ∧ next.status ≠ .completed) := by
  constructor
  · intro hway next hnext
    exact ⟨fun hid ↦ hway.ended next hnext (List.mem_append_right _ hid),
      fun hid ↦ hway.cancelled next hnext (List.mem_append.mpr hid)⟩
  · intro hnexts
    refine ⟨fun next hnext hid ↦ ?_, fun next hnext hid ↦
      (hnexts next hnext).2 (List.mem_append.mp hid)⟩
    rcases List.mem_append.mp hid with hid | hid
    · obtain ⟨run, hrun, hended, _⟩ := mem_endedRuns.mp hid
      obtain rfl : run = next := Option.mem_unique hrun hnext
      exact hended
    · exact (hnexts next hnext).1 hid

theorem summary_lawful_iff (hknown : RunsKnown m h) (hway : OneWay h) {run : TeamRunRecord}
    (hrun : run ∈ h.state.record) (summary : RunWorkSummary) :
    ((run.teamRunId ∈ h.ended → (run.statusAfter summary).isActive = false) ∧
      (run.teamRunId ∈ h.cancelBegun →
        run.statusAfter summary ≠ .running ∧ run.statusAfter summary ≠ .completed)) ↔
    (summary.failedIntentCount = 0 →
      (summary.noWork = true → run.teamRunId ∈ h.cancelBegun → run.status = .cancelling) ∧
        (summary.noWork = false → 0 < summary.runningBatchCount →
          run.status = .accepted ∨ run.status = .running)) := by
  have hended := hway.ended run hrun
  have hcancelled := hway.cancelled run hrun
  unfold TeamRunRecord.statusAfter
  by_cases hfailed : 0 < summary.failedIntentCount
  · rw [if_pos hfailed]
    have hne : summary.failedIntentCount ≠ 0 := by omega
    simp [hne, TeamRunStatus.isActive]
  · rw [if_neg hfailed]
    have hzero : summary.failedIntentCount = 0 := by omega
    cases hwork : summary.noWork with
    | true =>
        by_cases hstatus : run.status = .cancelling
        · simp [hstatus, TeamRunStatus.isActive]
        · simp [hstatus, hzero, TeamRunStatus.isActive]
    | false =>
        by_cases hrunning : 0 < summary.runningBatchCount
        · simp only [hrunning, hzero]
          constructor
          · rintro ⟨hnotEnded, hnotCancelled⟩
            have hactive : run.isActive = true := by
              by_contra hinactive
              have hmem := hknown.ended run hrun (by simpa using hinactive)
              exact absurd (hnotEnded hmem) (by simp [TeamRunStatus.isActive])
            have hcancelling : run.status ≠ .cancelling := fun hstatus ↦
              (hnotCancelled (hknown.cancelling run hrun hstatus)).1 rfl
            refine fun _ ↦ ⟨by simp, fun _ _ ↦ ?_⟩
            unfold TeamRunRecord.isActive at hactive
            cases hstatus : run.status <;> simp_all [TeamRunStatus.isActive]
          · intro horder
            have hstatus := (horder trivial).2 trivial trivial
            refine ⟨fun hmem ↦ ?_, fun hmem ↦ ?_⟩
            · have hinactive := hended hmem
              rw [TeamRunRecord.isActive] at hinactive
              rcases hstatus with hstatus | hstatus <;> rw [hstatus] at hinactive <;>
                cases hinactive
            · rcases hstatus with hstatus | hstatus
              · exact absurd hmem (hknown.accepted run hrun hstatus)
              · exact absurd hstatus (hcancelled hmem).1
        · simp only [hrunning]
          exact ⟨fun _ _ ↦ ⟨by simp, fun _ h ↦ h.elim⟩, fun _ ↦ ⟨hended, hcancelled⟩⟩

theorem oneWay_step (hknown : RunsKnown m h) (hway : OneWay h) (op : TeamRunOp) :
    OneWay (m.historyStep h op) ↔ InOrder h op := by
  rw [oneWay_historyStep]
  cases hrecord : (m.step h.state op).record with
  | none =>
      refine iff_of_true (by simp) ?_
      cases op with
      | applyWorkSummary summary now =>
          intro _ run hrun hmatch
          have hfilter : h.state.record.filter (fun run ↦ run.teamRunId = summary.teamRunId) =
              some run := Option.filter_eq_some_iff.mpr ⟨hrun, by simpa using hmatch⟩
          simp [TeamRunManager.step, applyWorkSummary, hfilter] at hrecord
      | _ => trivial
  | some next =>
      simp only [Option.mem_some, forall_eq']
      cases moved op (Option.mem_def.mpr hrecord) with
      | opened hid hstatus _ hbegun horder =>
          refine iff_of_true ⟨fun hmem ↦ ?_, fun hmem ↦ ?_⟩ (horder h)
          · exact absurd (hid ▸ hmem) hknown.fresh.1
          · simp [hstatus]
      | kept run hrun hid hstatus hbegun horder =>
          refine iff_of_true ?_ (horder h rfl)
          rw [TeamRunRecord.isActive, hid, hstatus, hbegun]
          simpa [TeamRunRecord.isActive] using
            And.intro (hway.ended run hrun) (hway.cancelled run hrun)
      | cancelled run hrun hactive hid hstatus _ horder =>
          refine iff_of_true ⟨fun hmem ↦ ?_, fun _ ↦ by simp [hstatus]⟩ (horder h)
          have hended := hway.ended run hrun (hid ▸ hmem)
          exact absurd (hactive.symm.trans hended) (by simp)
      | summarized run summary now hop hrun hmatch hid hstatus =>
          have hiff := summary_lawful_iff hknown hway hrun summary
          subst hop
          rw [TeamRunRecord.isActive, hid, hstatus]
          simp only [begun, List.not_mem_nil, false_or]
          rw [hiff]
          constructor
          · intro horder hzero other hother _
            obtain rfl : run = other := Option.mem_unique hrun hother
            exact horder hzero
          · exact fun horder hzero ↦ horder hzero run hrun hmatch

end Lifecycle

/-- The lifecycle of team runs, for every run of the manager: it is one-way exactly when every
work summary is in order. -/
theorem teamRuns_oneWay_iff (m : TeamRunManager) (ops : List TeamRunOp) :
    Throughout m.historyStep OneWay .initial ops ↔ Meets m.historyStep InOrder .initial ops :=
  throughout_iff_meets (Q := RunsKnown m) (fun _ op hknown ↦ runsKnown_step hknown op)
    (fun _ op hknown hway ↦ oneWay_step hknown hway op) runsKnown_initial oneWay_initial

/-- A summary published while a batch was running arrives after the one that completed the run. -/
def lateSummary : List TeamRunOp :=
  [.bindUserEnqueue "s" .lead,
    .applyWorkSummary ⟨"", 0, 0, 1, 0, 0, 0, []⟩ 0,
    .applyWorkSummary ⟨"", 0, 0, 0, 0, 0, 0, []⟩ 1,
    .applyWorkSummary ⟨"", 0, 0, 1, 0, 0, 0, []⟩ 2]

theorem tallyMarks_injective : Function.Injective fun k ↦ String.ofList (List.replicate k '|') :=
  fun _ _ h ↦ List.replicate_left_injective '|' (String.ofList_injective h)

def talliedRuns : TeamRunManager where
  teamId := "t"
  generateId k := String.ofList (List.replicate k '|')
  generateId_injective := tallyMarks_injective

theorem lateSummary_revives_run : ¬ Throughout talliedRuns.historyStep OneWay .initial lateSummary := by
  intro h
  have hlast := h.last
  have hrecord : (run talliedRuns.historyStep .initial lateSummary).state.record.map
      (fun run ↦ (run.teamRunId, run.isActive)) = some ("", true) := by decide
  have hended : (run talliedRuns.historyStep .initial lateSummary).ended.head? = some "" := by decide
  obtain ⟨run, hrun, hpair⟩ := Option.map_eq_some_iff.mp hrecord
  obtain ⟨hid, hactive⟩ := Prod.mk.inj hpair
  have hmem := List.mem_of_mem_head? hended
  have := hlast.ended run hrun (hid ▸ hmem)
  exact absurd (hactive.symm.trans this) (by simp)

end Zaowutai.Team
