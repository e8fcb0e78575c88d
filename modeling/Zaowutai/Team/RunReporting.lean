import Zaowutai.Team.CoordinatorRun
import Zaowutai.Team.RunLifecycle

/-!
# The coordinator and the run manager together

The run manager answers the bind calls of the coordinator and receives the
summaries that the coordinator publishes.  Operations run one at a time, and
the calls of an operation are delivered before the next one starts.
-/

namespace Zaowutai.Team

open Zaowutai.Lib SlotWorkCoordinator

namespace CoordinatorState

variable (s : CoordinatorState)

def busyWithout (intentIds : List String) (teamRunId : String) : Bool :=
  (s.intents.entries.any fun e ↦
    decide (e.2.teamRunId = some teamRunId) && !e.2.state.isTerminal &&
      decide (e.1 ∉ intentIds)) ||
    s.enqueueLeases.values.any fun record ↦ record.lease.teamRunId = some teamRunId

def isBusy (teamRunId : String) : Bool := s.busyWithout [] teamRunId

variable {s} {teamRunId : String}

theorem busyWithout_iff {intentIds : List String} : s.busyWithout intentIds teamRunId = true ↔
    (∃ id intent, s.intents.lookup id = some intent ∧ intent.teamRunId = some teamRunId ∧
      intent.state.isTerminal = false ∧ id ∉ intentIds) ∨
    ∃ leaseId record, s.enqueueLeases.lookup leaseId = some record ∧
      record.lease.teamRunId = some teamRunId := by
  simp only [busyWithout, Bool.or_eq_true, List.any_eq_true, Bool.and_eq_true, decide_eq_true_eq,
    Bool.not_eq_true', Table.mem_values_iff]
  refine or_congr ⟨?_, ?_⟩ ⟨?_, ?_⟩
  · rintro ⟨e, he, ⟨hrun, hlive⟩, hid⟩
    exact ⟨e.1, e.2, Table.mem_entries_iff.mp he, hrun, hlive, hid⟩
  · rintro ⟨id, intent, hi, hrun, hlive, hid⟩
    exact ⟨⟨id, intent⟩, Table.mem_entries_iff.mpr hi, ⟨hrun, hlive⟩, hid⟩
  · rintro ⟨record, ⟨leaseId, hlease⟩, hrun⟩
    exact ⟨leaseId, record, hlease, hrun⟩
  · rintro ⟨leaseId, record, hlease, hrun⟩
    exact ⟨record, ⟨leaseId, hlease⟩, hrun⟩

theorem isBusy_iff : s.isBusy teamRunId = true ↔
    (∃ id intent, s.intents.lookup id = some intent ∧ intent.teamRunId = some teamRunId ∧
      intent.state.isTerminal = false) ∨
    ∃ leaseId record, s.enqueueLeases.lookup leaseId = some record ∧
      record.lease.teamRunId = some teamRunId := by
  simp [isBusy, busyWithout_iff]

theorem noWork_of_not_busy (h : s.isBusy teamRunId = false) :
    (s.runSummary teamRunId).noWork = true := by
  have hdone : ∀ intent ∈ s.runIntents teamRunId, intent.state.isTerminal = true := by
    intro intent hmem
    obtain ⟨hvalue, hrun⟩ := List.mem_filter.mp hmem
    obtain ⟨id, hi⟩ := Table.mem_values_iff.mp hvalue
    by_contra hlive
    have hbusy := isBusy_iff.mpr
      (Or.inl ⟨id, intent, hi, of_decide_eq_true hrun, by simpa using hlive⟩)
    simp [h] at hbusy
  have hleases : s.runLeases teamRunId = [] := by
    refine List.filter_eq_nil_iff.mpr fun lease hlease hrun ↦ ?_
    obtain ⟨record, hrecord, rfl⟩ := List.mem_map.mp hlease
    obtain ⟨leaseId, hlookup⟩ := Table.mem_values_iff.mp hrecord
    have hbusy := isBusy_iff.mpr (Or.inr ⟨leaseId, record, hlookup, of_decide_eq_true hrun⟩)
    simp [h] at hbusy
  have hqueued : (s.runIntents teamRunId).filter (fun intent ↦ intent.state = .queued) = [] := by
    refine List.filter_eq_nil_iff.mpr fun intent hmem hstate ↦ ?_
    have hterminal := hdone intent hmem
    rw [of_decide_eq_true hstate] at hterminal
    cases hterminal
  have hstarting : (s.runIntents teamRunId).filterMap
      (fun intent ↦ intent.state.startingBatch) = [] := by
    refine List.filterMap_eq_nil_iff.mpr fun intent hmem ↦ ?_
    have hterminal := hdone intent hmem
    cases hstate : intent.state <;> simp_all [WorkIntentState.startingBatch, WorkIntentState.isTerminal]
  have hrunning : (s.runIntents teamRunId).filterMap
      (fun intent ↦ intent.state.runningBatch) = [] := by
    refine List.filterMap_eq_nil_iff.mpr fun intent hmem ↦ ?_
    have hterminal := hdone intent hmem
    cases hstate : intent.state <;> simp_all [WorkIntentState.runningBatch, WorkIntentState.isTerminal]
  simp [runSummary, RunWorkSummary.noWork, hqueued, hstarting, hrunning, hleases]

end CoordinatorState

structure RunSession where
  coordinator : SlotWorkCoordinator
  manager : TeamRunManager

structure RunSessionState where
  work : CoordinatorState
  runs : TeamRunState

def RunSessionState.initial : RunSessionState := ⟨.empty, TeamRunManager.initial⟩

inductive RunSessionOp
  | perform (op : CoordinatorOp) (now : ℤ)
  | beginCancel (teamRunId : String) (reason : Option String) (now : ℤ)

namespace TeamRunManager

variable (m : TeamRunManager)

/-- What the manager would answer to a bind call now. -/
def answers (runs : TeamRunState) : PortAnswers where
  bindEnqueue request := (m.bindEnqueue runs request).2
  bindSystemEnqueue request := (m.bindSystemEnqueue runs request.slotId request.role).2

def deliver (now : ℤ) (runs : TeamRunState) : PortCall → TeamRunState
  | .bindEnqueue request => (m.bindEnqueue runs request).1
  | .bindSystemEnqueue request => (m.bindSystemEnqueue runs request.slotId request.role).1
  | .abortBinding binding => abortBinding runs binding
  | .applyWorkSummary summary => (m.applyWorkSummary runs summary now).1
  | .publishSlotWork _ => runs

end TeamRunManager

/-- The operation as the coordinator performs it, with the manager behind its port. -/
def CoordinatorOp.answered (answers : PortAnswers) : CoordinatorOp → CoordinatorOp
  | .acquireEnqueue _ request => .acquireEnqueue answers request
  | op => op

namespace RunSession

variable (x : RunSession)

def step (s : RunSessionState) : RunSessionOp → RunSessionState
  | .perform op now =>
      let outcome := x.coordinator.perform s.work (op.answered (x.manager.answers s.runs))
      ⟨outcome.1, outcome.2.foldl (x.manager.deliver now) s.runs⟩
  | .beginCancel teamRunId reason now =>
      ⟨s.work, x.manager.step s.runs (.beginCancel teamRunId reason now)⟩

end RunSession

def EndReported (s : RunSessionState) : Prop :=
  ∀ run ∈ s.runs.record, s.work.isBusy run.teamRunId = false → run.isActive = false

section Delivery

variable {m : TeamRunManager} {s : CoordinatorState} {now : ℤ} {runs : TeamRunState}

def IsReport (s : CoordinatorState) : PortCall → Prop
  | .applyWorkSummary summary => summary = s.runSummary summary.teamRunId
  | .publishSlotWork _ | .abortBinding _ => True
  | .bindEnqueue _ | .bindSystemEnqueue _ => False

def Settled (s : CoordinatorState) (run : TeamRunRecord) : Prop :=
  s.isBusy run.teamRunId = false → run.isActive = false

theorem settled_statusAfter (run : TeamRunRecord) {next : TeamRunRecord}
    (hid : next.teamRunId = run.teamRunId)
    (hstatus : next.status = run.statusAfter (s.runSummary run.teamRunId)) : Settled s next := by
  intro hidle
  have hwork := s.noWork_of_not_busy (hid ▸ hidle)
  rw [TeamRunRecord.isActive, hstatus, TeamRunRecord.statusAfter, hwork]
  split
  · rfl
  · rw [if_pos rfl]
    split <;> rfl

theorem deliver_call {call : PortCall} (hcall : IsReport s call) {next : TeamRunRecord}
    (hnext : next ∈ (m.deliver now runs call).record) :
    ∃ run ∈ runs.record, next.teamRunId = run.teamRunId ∧
      (Settled s next ∨
        next.status = run.status ∧ call ≠ .applyWorkSummary (s.runSummary run.teamRunId)) := by
  cases call with
  | applyWorkSummary summary =>
      cases hfilter : runs.record.filter fun run ↦ run.teamRunId = summary.teamRunId with
      | some run =>
          obtain ⟨hrun, hmatch⟩ := Option.filter_eq_some_iff.mp hfilter
          simp only [TeamRunManager.deliver, TeamRunManager.applyWorkSummary, hfilter] at hnext
          obtain rfl := Option.some.inj hnext
          refine ⟨run, hrun, rfl, Or.inl (settled_statusAfter run rfl ?_)⟩
          rw [of_decide_eq_true hmatch, ← hcall]
          rfl
      | none =>
          simp only [TeamRunManager.deliver, TeamRunManager.applyWorkSummary, hfilter] at hnext
          refine ⟨next, hnext, rfl, Or.inr ⟨rfl, fun heq ↦ ?_⟩⟩
          have hid := congrArg RunWorkSummary.teamRunId (PortCall.applyWorkSummary.inj heq)
          exact Option.filter_eq_none_iff.mp hfilter next hnext (decide_eq_true hid.symm)
  | publishSlotWork snapshot => exact ⟨next, hnext, rfl, Or.inr ⟨rfl, by simp⟩⟩
  | abortBinding binding =>
      simp only [TeamRunManager.deliver, TeamRunManager.abortBinding] at hnext
      split at hnext
      · simp at hnext
      · exact ⟨next, hnext, rfl, Or.inr ⟨rfl, by simp⟩⟩
  | bindEnqueue request => exact hcall.elim
  | bindSystemEnqueue request => exact hcall.elim

theorem deliver_calls {calls : List PortCall} (hcalls : ∀ call ∈ calls, IsReport s call)
    {next : TeamRunRecord} (hnext : next ∈ (calls.foldl (m.deliver now) runs).record) :
    ∃ run ∈ runs.record, next.teamRunId = run.teamRunId ∧
      (Settled s next ∨ next.status = run.status ∧
        .applyWorkSummary (s.runSummary run.teamRunId) ∉ calls) := by
  induction calls generalizing runs with
  | nil => exact ⟨next, hnext, rfl, Or.inr ⟨rfl, List.not_mem_nil⟩⟩
  | cons call calls ih =>
      obtain ⟨mid, hmid, hid, hnext'⟩ :=
        ih (fun call hcall ↦ hcalls call (List.mem_cons_of_mem _ hcall)) hnext
      obtain ⟨run, hrun, hid', hmid'⟩ := deliver_call (hcalls call List.mem_cons_self) hmid
      refine ⟨run, hrun, hid.trans hid', ?_⟩
      rcases hnext' with hsettled | ⟨hstatus, hnot⟩
      · exact Or.inl hsettled
      · rcases hmid' with hsettled | ⟨hstatus', hcall⟩
        · refine Or.inl fun hidle ↦ ?_
          rw [TeamRunRecord.isActive, hstatus]
          exact hsettled (hid ▸ hidle)
        · refine Or.inr ⟨hstatus.trans hstatus', fun hmem ↦ ?_⟩
          rcases List.mem_cons.mp hmem with heq | hmem
          · exact hcall heq.symm
          · exact hnot (hid' ▸ hmem)

theorem deliver_others {calls : List PortCall} {run : TeamRunRecord}
    (hcalls : ∀ call ∈ calls, (∃ snapshot, call = .publishSlotWork snapshot) ∨
      ∃ summary, call = .applyWorkSummary summary ∧ summary.teamRunId ≠ run.teamRunId)
    (hrun : runs.record = some run) : calls.foldl (m.deliver now) runs = runs := by
  induction calls with
  | nil => rfl
  | cons call calls ih =>
      have hcall : m.deliver now runs call = runs := by
        rcases hcalls call List.mem_cons_self with ⟨snapshot, rfl⟩ | ⟨summary, rfl, hne⟩
        · rfl
        · simp [TeamRunManager.deliver, TeamRunManager.applyWorkSummary, hrun, Option.filter,
            Ne.symm hne]
      rw [List.foldl_cons, hcall]
      exact ih fun call hmem ↦ hcalls call (List.mem_cons_of_mem _ hmem)

end Delivery

end Zaowutai.Team
