import Zaowutai.Lib.Run
import Zaowutai.Cron.RunLedger

/-!
# Overlapping runs of a queued job

A new occurrence of a job with a queue is skipped while another run of the job
is active.  Nothing is asked of a run that is already there: one whose lease
has passed is taken over or renewed beside whatever started in the meantime.
-/

namespace Zaowutai.Cron

open Zaowutai.Lib

def CronJobRun.isRunningAt (run : CronJobRun) (now : ℤ) : Bool :=
  run.status = .running && run.leaseUntil.any (now < ·)

namespace CronJobRun

variable {run : CronJobRun} {now later : ℤ}

theorem isActive_of_isRunningAt (h : run.isRunningAt now = true) : run.isActive now = true := by
  simp only [isRunningAt, isActive, Bool.and_eq_true, decide_eq_true_eq] at h ⊢
  rw [h.1]
  exact ⟨rfl, h.2⟩

theorem isRunningAt_mono (hle : now ≤ later) (h : run.isRunningAt later = true) :
    run.isRunningAt now = true := by
  simp only [isRunningAt, Bool.and_eq_true, Option.any_eq_true, decide_eq_true_eq] at h ⊢
  obtain ⟨hrunning, lease, hlease, hlt⟩ := h
  exact ⟨hrunning, lease, hlease, hle.trans_lt hlt⟩

end CronJobRun

namespace CronRepository

variable (r : CronRepository)

def otherRunning (key : String × ℤ) (now : ℤ) : Bool :=
  r.cronJobRuns.entries.any fun entry ↦
    entry.1.1 = key.1 && entry.1 ≠ key && entry.2.isRunningAt now

/-- At most one occurrence of the job is executed at this moment. -/
def NoOverlap (jobId : String) (now : ℤ) : Prop :=
  ∀ key key' run run', key.1 = jobId → key'.1 = jobId → r.run? key = some run →
    r.run? key' = some run' → run.isRunningAt now = true → run'.isRunningAt now = true → key = key'

variable {r} {key : String × ℤ} {now : ℤ}

theorem otherRunning_iff :
    r.otherRunning key now = true ↔ ∃ other run, other.1 = key.1 ∧ other ≠ key ∧
      r.run? other = some run ∧ run.isRunningAt now = true := by
  simp only [otherRunning, List.any_eq_true, Bool.and_eq_true, decide_eq_true_eq]
  constructor
  · rintro ⟨⟨other, run⟩, hmem, ⟨hjob, hne⟩, hrunning⟩
    exact ⟨other, run, hjob, hne, Table.mem_entries_iff.mp hmem, hrunning⟩
  · rintro ⟨other, run, hjob, hne, hrun, hrunning⟩
    exact ⟨⟨other, run⟩, Table.mem_entries_iff.mpr hrun, ⟨hjob, hne⟩, hrunning⟩

theorem hasActiveRun_iff {jobId : String} :
    r.hasActiveRun jobId now = true ↔
      ∃ key run, key.1 = jobId ∧ r.run? key = some run ∧ run.isActive now = true := by
  simp only [hasActiveRun, List.any_eq_true, Bool.and_eq_true, decide_eq_true_eq]
  constructor
  · rintro ⟨⟨key, run⟩, hmem, hjob, hactive⟩
    exact ⟨key, run, hjob, Table.mem_entries_iff.mp hmem, hactive⟩
  · rintro ⟨key, run, hjob, hrun, hactive⟩
    exact ⟨⟨key, run⟩, Table.mem_entries_iff.mpr hrun, hjob, hactive⟩

theorem NoOverlap.mono {jobId : String} {later : ℤ} (hle : now ≤ later)
    (h : r.NoOverlap jobId now) : r.NoOverlap jobId later :=
  fun key key' run run' hjob hjob' hrun hrun' hrunning hrunning' ↦
    h key key' run run' hjob hjob' hrun hrun'
      (CronJobRun.isRunningAt_mono hle hrunning) (CronJobRun.isRunningAt_mono hle hrunning')

theorem NoOverlap.not_otherRunning {run : CronJobRun} (h : r.NoOverlap key.1 now)
    (hrun : r.run? key = some run) (hrunning : run.isRunningAt now = true) :
    r.otherRunning key now = false := by
  by_contra hother
  obtain ⟨other, run', hjob, hne, hrun', hrunning'⟩ :=
    otherRunning_iff.mp (Bool.of_not_eq_false hother)
  exact hne (h other key run' run hjob rfl hrun' hrun hrunning' hrunning)

theorem noOverlap_iff_of_row {r' : CronRepository} {new : CronJobRun}
    (hrun? : ∀ other, r'.run? other = if other = key then some new else r.run? other)
    (h : r.NoOverlap key.1 now) :
    r'.NoOverlap key.1 now ↔ (new.isRunningAt now = true → r.otherRunning key now = false) := by
  constructor
  · intro hnext hrunning
    by_contra hother
    obtain ⟨other, run, hjob, hne, hrun, hotherRunning⟩ :=
      otherRunning_iff.mp (Bool.of_not_eq_false hother)
    exact hne (hnext other key run new hjob rfl (by rw [hrun?, if_neg hne, hrun])
      (by rw [hrun?, if_pos rfl]) hotherRunning hrunning)
  · intro hguard first second run run' hjob hjob' hrun hrun' hrunning hrunning'
    rw [hrun?] at hrun hrun'
    split at hrun <;> split at hrun'
    · next hfirst hsecond => rw [hfirst, hsecond]
    · next hsecond =>
        cases hrun
        have hother : r.otherRunning key now = true :=
          otherRunning_iff.mpr ⟨second, run', hjob', hsecond, hrun', hrunning'⟩
        cases (hguard hrunning).symm.trans hother
    · next hfirst _ =>
        cases hrun'
        have hother : r.otherRunning key now = true :=
          otherRunning_iff.mpr ⟨first, run, hjob, hfirst, hrun, hrunning⟩
        cases (hguard hrunning').symm.trans hother
    · exact h first second run run' hjob hjob' hrun hrun' hrunning hrunning'

theorem noOverlap_of_other_job {r' : CronRepository} {new : CronJobRun} {jobId : String}
    (hrun? : ∀ other, r'.run? other = if other = key then some new else r.run? other)
    (hjob : key.1 ≠ jobId) (h : r.NoOverlap jobId now) : r'.NoOverlap jobId now := by
  intro first second run run' hfirst hsecond hrun hrun'
  have hne : first ≠ key := fun heq ↦ hjob (heq ▸ hfirst)
  have hne' : second ≠ key := fun heq ↦ hjob (heq ▸ hsecond)
  rw [hrun?, if_neg hne] at hrun
  rw [hrun?, if_neg hne'] at hrun'
  exact h first second run run' hfirst hsecond hrun hrun'

def takesOver (r : CronRepository) (params : ClaimCronRunParams) : Bool :=
  (r.run? params.key).any fun run ↦ run.isExpired params.now && params.now < params.leaseUntil

def revives (r : CronRepository) (jobId : String) (scheduledAt : ℤ) (ownerId : String) :
    OwnerCall → Bool
  | .renewRunLease leaseUntil now =>
      r.isOwned jobId scheduledAt ownerId && now < leaseUntil &&
        (r.run? (jobId, scheduledAt)).any fun run ↦ !run.isRunningAt now
  | .deferRun _ _ | .finishRun _ _ _ _ _ => false

theorem skipped_claimRun {run : CronJobRun} (params : ClaimCronRunParams)
    (h : r.run? key = some run) (hskipped : run.status = .skipped) :
    (r.claimRun params).1.run? key = some run := by
  rcases r.claimRun_cases params with
    ⟨-, heq⟩ | ⟨-, ⟨expired, hrun, hexpired, heq⟩ | ⟨hnone, ⟨-, heq⟩ | ⟨-, heq⟩⟩⟩ <;> rw [heq]
  · exact h
  · have hkey : key ≠ params.key := by
      rintro rfl
      obtain rfl : expired = run := Option.some.inj (hrun.symm.trans h)
      rw [CronJobRun.isExpired, hskipped] at hexpired
      cases hexpired
    rw [run?_modifyRun, if_neg hkey, h]
  all_goals
    have hkey : key ≠ params.key := by
      rintro rfl
      cases hnone.symm.trans h
    rw [run?_insertRun, if_neg hkey, h]

theorem skipped_perform {run : CronJobRun} (call : OwnerCall) (jobId : String) (scheduledAt : ℤ)
    (ownerId : String) (h : r.run? key = some run) (hskipped : run.status = .skipped) :
    (call.perform r jobId scheduledAt ownerId).1.run? key = some run := by
  rw [OwnerCall.perform_eq]
  rcases r.updateOwned_cases jobId scheduledAt ownerId call.update with
    ⟨-, heq⟩ | ⟨howned, heq⟩ <;> rw [heq]
  · exact h
  · have hkey : key ≠ (jobId, scheduledAt) := by
      rintro rfl
      obtain ⟨-, owned, hrun, hrunning, -⟩ := r.isOwned_iff.mp howned
      obtain rfl : owned = run := Option.some.inj (hrun.symm.trans h)
      cases hrunning.symm.trans hskipped
    rw [run?_modifyRun, if_neg hkey, h]

theorem not_otherRunning_of_not_hasActiveRun (h : r.hasActiveRun key.1 now = false) :
    r.otherRunning key now = false := by
  by_contra hother
  obtain ⟨other, run, hjob, -, hrun, hrunning⟩ :=
    otherRunning_iff.mp (Bool.of_not_eq_false hother)
  have hactive : r.hasActiveRun key.1 now = true :=
    hasActiveRun_iff.mpr ⟨other, run, hjob, hrun, CronJobRun.isActive_of_isRunningAt hrunning⟩
  cases h.symm.trans hactive

theorem noOverlap_claimRun_iff {params : ClaimCronRunParams}
    (h : r.NoOverlap params.jobId params.now) (hqueue : params.queueEnabled = true)
    (howned : r.run? params.key ≠ none → r.jobHasOwner params.jobId = true) :
    (r.claimRun params).1.NoOverlap params.jobId params.now ↔
      (r.takesOver params = true → r.otherRunning params.key params.now = false) := by
  have hlocal : r.NoOverlap params.key.1 params.now := h
  rcases r.claimRun_cases params with
    ⟨hdup, heq⟩ | ⟨-, ⟨expired, hrun, hexpired, heq⟩ | ⟨hnone, ⟨-, heq⟩ | ⟨hfree, heq⟩⟩⟩ <;>
    rw [heq]
  · refine iff_of_true h fun htakes ↦ ?_
    obtain ⟨run, hrun, hexpired⟩ := (Option.any_eq_true _ _).mp htakes
    rcases hdup with hnot | ⟨run', hrun', hleased⟩
    · have hsome : r.run? params.key ≠ none := by simp [hrun]
      cases hnot.symm.trans (howned hsome)
    · obtain rfl : run = run' := Option.some.inj (hrun.symm.trans hrun')
      rw [hleased] at hexpired
      cases hexpired
  · have hrunning : (expired.reclaim params).isRunningAt params.now = r.takesOver params := by
      rw [takesOver, hrun, Option.any_some, hexpired, Bool.true_and]
      rfl
    rw [← hrunning]
    exact noOverlap_iff_of_row (r.run?_modifyRun_of_some hrun (·.reclaim params)) hlocal
  · have hiff := noOverlap_iff_of_row
      (fun other ↦ r.run?_insertRun params.key other (.skipped params)) hlocal
    refine iff_of_true (hiff.mpr fun hrunning ↦ by cases hrunning) fun htakes ↦ ?_
    rw [takesOver, hnone] at htakes
    cases htakes
  · have hiff := noOverlap_iff_of_row
      (fun other ↦ r.run?_insertRun params.key other (.started params)) hlocal
    rw [hqueue, Bool.true_and] at hfree
    refine iff_of_true (hiff.mpr fun _ ↦ not_otherRunning_of_not_hasActiveRun hfree)
      fun _ ↦ not_otherRunning_of_not_hasActiveRun hfree

theorem noOverlap_perform_iff {jobId : String} {scheduledAt : ℤ} {ownerId : String}
    (call : OwnerCall) (h : r.NoOverlap jobId call.now) :
    (call.perform r jobId scheduledAt ownerId).1.NoOverlap jobId call.now ↔
      (r.revives jobId scheduledAt ownerId call = true →
        r.otherRunning (jobId, scheduledAt) call.now = false) := by
  rw [OwnerCall.perform_eq]
  rcases r.updateOwned_cases jobId scheduledAt ownerId call.update with
    ⟨hnot, heq⟩ | ⟨howned, heq⟩ <;> rw [heq]
  · refine iff_of_true h fun hrevives ↦ ?_
    cases call with
    | renewRunLease leaseUntil updatedAt =>
        rw [revives, hnot] at hrevives
        cases hrevives
    | deferRun _ _ | finishRun _ _ _ _ _ => cases hrevives
  · obtain ⟨-, run, hrun, hstatus, -⟩ := r.isOwned_iff.mp howned
    have hlocal : r.NoOverlap (jobId, scheduledAt).1 call.now := h
    have hiff := noOverlap_iff_of_row (r.run?_modifyRun_of_some hrun call.update) hlocal
    cases call with
    | deferRun _ _ =>
        exact iff_of_true (hiff.mpr fun hrunning ↦ by cases hrunning) fun h ↦ by cases h
    | finishRun _ _ _ _ _ =>
        refine iff_of_true (hiff.mpr fun hrunning ↦ ?_) fun h ↦ by cases h
        simp [OwnerCall.update, CronJobRun.isRunningAt] at hrunning
    | renewRunLease leaseUntil updatedAt =>
        have hnew : (OwnerCall.update (.renewRunLease leaseUntil updatedAt) run).isRunningAt
            updatedAt = decide (updatedAt < leaseUntil) := by
          simp [OwnerCall.update, CronJobRun.isRunningAt, hstatus]
        cases hleased : run.isRunningAt updatedAt with
        | true =>
            have hother := h.not_otherRunning hrun hleased
            exact iff_of_true (hiff.mpr fun _ ↦ hother) fun _ ↦ hother
        | false =>
            have hrevives : r.revives jobId scheduledAt ownerId
                (.renewRunLease leaseUntil updatedAt) = decide (updatedAt < leaseUntil) := by
              simp [revives, howned, hrun, hleased]
            rw [hrevives, ← hnew]
            exact hiff

theorem noOverlap_claimRun_of_ne {params : ClaimCronRunParams} {jobId : String}
    (hjob : params.jobId ≠ jobId) (h : r.NoOverlap jobId now) :
    (r.claimRun params).1.NoOverlap jobId now := by
  have hkey : params.key.1 ≠ jobId := hjob
  rcases r.claimRun_cases params with
    ⟨-, heq⟩ | ⟨-, ⟨_, hrun, -, heq⟩ | ⟨-, ⟨-, heq⟩ | ⟨-, heq⟩⟩⟩ <;> rw [heq]
  · exact h
  · exact noOverlap_of_other_job (r.run?_modifyRun_of_some hrun _) hkey h
  · exact noOverlap_of_other_job (fun other ↦ r.run?_insertRun params.key other _) hkey h
  · exact noOverlap_of_other_job (fun other ↦ r.run?_insertRun params.key other _) hkey h

theorem noOverlap_perform_of_ne {job jobId : String} {scheduledAt : ℤ} {ownerId : String}
    (call : OwnerCall) (hjob : job ≠ jobId) (h : r.NoOverlap jobId now) :
    (call.perform r job scheduledAt ownerId).1.NoOverlap jobId now := by
  rw [OwnerCall.perform_eq]
  rcases r.updateOwned_cases job scheduledAt ownerId call.update with
    ⟨-, heq⟩ | ⟨howned, heq⟩ <;> rw [heq]
  · exact h
  · obtain ⟨-, run, hrun, -⟩ := r.isOwned_iff.mp howned
    exact noOverlap_of_other_job (r.run?_modifyRun_of_some hrun _) hjob h

end CronRepository

inductive RunCall
  | claimRun (params : ClaimCronRunParams)
  | owner (jobId : String) (scheduledAt : ℤ) (ownerId : String) (call : OwnerCall)
  deriving DecidableEq, Repr

def RunCall.now : RunCall → ℤ
  | .claimRun params => params.now
  | .owner _ _ _ call => call.now

/-- The runs and the time of the last call. -/
structure RunClock where
  repo : CronRepository
  clock : ℤ

namespace RunClock

def start (jobs : Table String (Option String)) (clock : ℤ) : RunClock := ⟨⟨jobs, ∅⟩, clock⟩

variable (s : RunClock) (jobId : String)

def step (call : RunCall) : RunClock where
  repo := match call with
    | .claimRun params => (s.repo.claimRun params).1
    | .owner jobId scheduledAt ownerId call =>
        (call.perform s.repo jobId scheduledAt ownerId).1
  clock := call.now

/-- At every later moment at most one occurrence of the job is executed. -/
def NoOverlap : Prop := ∀ now, s.clock ≤ now → s.repo.NoOverlap jobId now

def Queues (call : RunCall) : Prop :=
  s.clock ≤ call.now ∧
    match call with
    | .claimRun params => params.jobId = jobId → params.queueEnabled = true
    | .owner _ _ _ _ => True

/-- An occurrence that arrives while another one is running or waits for its retry is skipped,
and a skipped one is never run. -/
structure Skips (call : RunCall) : Prop where
  arrival : ∀ params, call = .claimRun params → params.jobId = jobId →
    s.repo.run? params.key = none → s.repo.hasUnfinishedRun jobId = true →
      ∃ run, (s.step call).repo.run? params.key = some run ∧ run.status = .skipped
  stays : ∀ key run, s.repo.run? key = some run → run.status = .skipped →
    (s.step call).repo.run? key = some run

def InLease : RunCall → Prop
  | .claimRun params => params.jobId = jobId →
      (s.repo.takesOver params = true → s.repo.otherRunning params.key params.now = false) ∧
        (s.repo.run? params.key = none → s.repo.hasUnfinishedRun jobId = true →
          s.repo.hasActiveRun jobId params.now = true)
  | .owner job scheduledAt ownerId call => job = jobId →
      s.repo.revives job scheduledAt ownerId call = true →
        s.repo.otherRunning (job, scheduledAt) call.now = false

def RunsOwned : Prop :=
  ∀ key run, s.repo.run? key = some run → s.repo.jobHasOwner key.1 = true

variable {s jobId}

theorem runsOwned_start (jobs : Table String (Option String)) (clock : ℤ) :
    (start jobs clock).RunsOwned := fun _ _ h ↦ by cases h

theorem noOverlap_start (jobs : Table String (Option String)) (clock : ℤ) :
    (start jobs clock).NoOverlap jobId := fun _ _ _ _ _ _ _ _ h ↦ by cases h

theorem jobHasOwner_step (call : RunCall) (job : String) :
    (s.step call).repo.jobHasOwner job = s.repo.jobHasOwner job := by
  have hjobs : (s.step call).repo.cronJobs = s.repo.cronJobs := by
    cases call with
    | claimRun params => exact s.repo.cronJobs_claimRun params
    | owner _ _ _ call => simp only [step, OwnerCall.perform_eq, CronRepository.cronJobs_updateOwned]
  rw [CronRepository.jobHasOwner, CronRepository.jobHasOwner, hjobs]

theorem RunsOwned.step (h : s.RunsOwned) (call : RunCall) : (s.step call).RunsOwned := by
  intro key run hrun
  rw [jobHasOwner_step]
  cases hbefore : s.repo.run? key with
  | some before => exact h key before hbefore
  | none =>
      cases call with
      | claimRun params =>
          rcases s.repo.claimRun_cases params with ⟨-, heq⟩ | ⟨howner, hcases⟩
          · simp only [RunClock.step, heq, hbefore] at hrun
            cases hrun
          · by_cases hkey : key = params.key
            · rw [hkey]
              exact howner
            · rcases hcases with ⟨_, _, -, heq⟩ | ⟨-, ⟨-, heq⟩ | ⟨-, heq⟩⟩ <;>
                simp [RunClock.step, heq, CronRepository.run?_modifyRun,
                  CronRepository.run?_insertRun, hkey, hbefore] at hrun
      | owner job scheduledAt ownerId call =>
          rcases s.repo.updateOwned_cases job scheduledAt ownerId call.update with
            ⟨-, heq⟩ | ⟨-, heq⟩ <;>
            simp [RunClock.step, OwnerCall.perform_eq, heq, CronRepository.run?_modifyRun,
              hbefore] at hrun

theorem noOverlap_step_iff {call : RunCall} :
    (s.step call).NoOverlap jobId ↔ (s.step call).repo.NoOverlap jobId call.now :=
  ⟨fun h ↦ h call.now le_rfl, fun h _ hle ↦ h.mono hle⟩

theorem stays_step (call : RunCall) {key : String × ℤ} {run : CronJobRun}
    (hrun : s.repo.run? key = some run) (hskipped : run.status = .skipped) :
    (s.step call).repo.run? key = some run := by
  cases call with
  | claimRun params => exact CronRepository.skipped_claimRun params hrun hskipped
  | owner job scheduledAt ownerId call =>
      exact CronRepository.skipped_perform call job scheduledAt ownerId hrun hskipped

theorem RunsOwned.arrival_iff (h : s.RunsOwned) {params : ClaimCronRunParams}
    (hqueue : params.queueEnabled = true) (hnone : s.repo.run? params.key = none)
    (hunfinished : s.repo.hasUnfinishedRun params.jobId = true) :
    (∃ run, (s.repo.claimRun params).1.run? params.key = some run ∧ run.status = .skipped) ↔
      s.repo.hasActiveRun params.jobId params.now = true := by
  rcases s.repo.claimRun_cases params with
    ⟨hdup, -⟩ | ⟨-, ⟨_, hrun, -⟩ | ⟨-, ⟨hbusy, heq⟩ | ⟨hfree, heq⟩⟩⟩
  · rcases hdup with hnot | ⟨_, hrun, -⟩
    · obtain ⟨key, run, hjob, hrun, -⟩ := (s.repo.hasUnfinishedRun_iff).mp hunfinished
      cases hnot.symm.trans (hjob ▸ h key run hrun)
    · cases hnone.symm.trans hrun
  · cases hnone.symm.trans hrun
  · rw [hqueue, Bool.true_and] at hbusy
    rw [heq, CronRepository.run?_insertRun, if_pos rfl]
    exact iff_of_true ⟨_, rfl, rfl⟩ hbusy
  · rw [hqueue, Bool.true_and] at hfree
    rw [heq, CronRepository.run?_insertRun, if_pos rfl, hfree]
    refine iff_of_false ?_ Bool.false_ne_true
    rintro ⟨run, hrun, hskipped⟩
    cases hrun
    cases hskipped

theorem queued_step_iff (hrows : s.RunsOwned) (hoverlap : s.NoOverlap jobId) {call : RunCall}
    (hqueues : s.Queues jobId call) :
    (s.step call).NoOverlap jobId ∧ s.Skips jobId call ↔ s.InLease jobId call := by
  have hnow : s.repo.NoOverlap jobId call.now := hoverlap call.now hqueues.1
  rw [noOverlap_step_iff]
  cases call with
  | claimRun params =>
      by_cases hjob : params.jobId = jobId
      · subst hjob
        have hqueue := hqueues.2 rfl
        have howned : s.repo.run? params.key ≠ none → s.repo.jobHasOwner params.jobId = true := by
          intro hsome
          obtain ⟨run, hrun⟩ := Option.ne_none_iff_exists'.mp hsome
          exact hrows params.key run hrun
        have hiff := CronRepository.noOverlap_claimRun_iff hnow hqueue howned
        constructor
        · rintro ⟨hnext, hskips⟩ -
          refine ⟨hiff.mp hnext, fun hnone hunfinished ↦ ?_⟩
          exact (hrows.arrival_iff hqueue hnone hunfinished).mp
            (hskips.arrival params rfl rfl hnone hunfinished)
        · intro hguard
          refine ⟨hiff.mpr (hguard rfl).1, ?_, fun key run ↦ stays_step _⟩
          rintro _ ⟨rfl⟩ - hnone hunfinished
          exact (hrows.arrival_iff hqueue hnone hunfinished).mpr
            ((hguard rfl).2 hnone hunfinished)
      · refine iff_of_true ⟨CronRepository.noOverlap_claimRun_of_ne hjob hnow, ?_, ?_⟩ ?_
        · rintro _ ⟨rfl⟩ hsame
          exact absurd hsame hjob
        · exact fun key run ↦ stays_step _
        · exact fun hsame ↦ absurd hsame hjob
  | owner job scheduledAt ownerId call =>
      have hskips : s.Skips jobId (.owner job scheduledAt ownerId call) :=
        ⟨fun _ h ↦ (by cases h), fun key run ↦ stays_step _⟩
      by_cases hjob : job = jobId
      · subst hjob
        have hiff : (s.step (.owner job scheduledAt ownerId call)).repo.NoOverlap job call.now ↔
            (s.repo.revives job scheduledAt ownerId call = true →
              s.repo.otherRunning (job, scheduledAt) call.now = false) :=
          CronRepository.noOverlap_perform_iff call hnow
        exact ⟨fun h _ ↦ hiff.mp h.1, fun hguard ↦ ⟨hiff.mpr (hguard rfl), hskips⟩⟩
      · refine iff_of_true ⟨CronRepository.noOverlap_perform_of_ne call hjob hnow, hskips⟩ ?_
        exact fun hsame ↦ absurd hsame hjob

/-- In every run with a clock that does not go back and in which the job has its queue, no two of
its runs overlap and every arrival beside an unfinished run is skipped exactly if the calls are
made within the leases. -/
theorem queued_iff_inLease (jobs : Table String (Option String)) (clock : ℤ) (jobId : String)
    (calls : List RunCall) (h : Meets step (Queues · jobId) (start jobs clock) calls) :
    Throughout step (NoOverlap · jobId) (start jobs clock) calls ∧
        Meets step (Skips · jobId) (start jobs clock) calls ↔
      Meets step (InLease · jobId) (start jobs clock) calls := by
  rw [throughout_and_meets]
  have hiff := meets_iff_meets_of_meets
    (Q := fun s : RunClock ↦ s.RunsOwned ∧ s.NoOverlap jobId)
    (fun s call hs hpremise hguard ↦
      ⟨hs.1.step call, ((queued_step_iff hs.1 hs.2 hpremise).mpr hguard).1⟩)
    (fun s call hs hpremise ↦ queued_step_iff hs.1 hs.2 hpremise)
    ⟨runsOwned_start jobs clock, noOverlap_start jobs clock⟩ h
  exact ⟨fun hboth ↦ hiff.mp hboth.2, fun hguard ↦ ⟨noOverlap_start jobs clock, hiff.mpr hguard⟩⟩

instance (s : RunClock) (jobId : String) (call : RunCall) : Decidable (s.Queues jobId call) := by
  cases call <;> unfold Queues <;> infer_instance

instance (s : RunClock) (jobId : String) (call : RunCall) : Decidable (s.InLease jobId call) := by
  cases call <;> unfold InLease <;> infer_instance

/-- The job is renewed, skips the occurrence that arrives meanwhile, and ends. -/
def queuedRun : List RunCall :=
  [.claimRun ⟨"job", 10000, "instance", 10000, 70000, true⟩,
    .owner "job" 10000 "instance" (.renewRunLease 130000 70000),
    .claimRun ⟨"job", 80000, "instance", 80000, 140000, true⟩,
    .owner "job" 10000 "instance" (.finishRun .ok none none 90000 CronRunStatus.isTerminal_ok)]

theorem queuedRun_skips :
    Throughout step (NoOverlap · "job") (start (AList.insert "job" (some "user") ∅) 0) queuedRun ∧
      Meets step (Skips · "job") (start (AList.insert "job" (some "user") ∅) 0) queuedRun :=
  (queued_iff_inLease _ _ _ _ (by decide)).mpr (by decide)

def lateHeartbeat : List RunCall :=
  [.claimRun ⟨"job", 10000, "asleep", 10000, 70000, true⟩,
    .claimRun ⟨"job", 80000, "awake", 80000, 140000, true⟩,
    .owner "job" 10000 "asleep" (.renewRunLease 145000 85000)]

theorem lateHeartbeat_overlaps :
    ¬∀ jobs clock jobId calls, Meets step (Queues · jobId) (start jobs clock) calls →
      Throughout step (NoOverlap · jobId) (start jobs clock) calls ∧
        Meets step (Skips · jobId) (start jobs clock) calls := by
  intro h
  have hruns := h (AList.insert "job" (some "user") ∅) 0 "job" lateHeartbeat (by decide)
  have hlast := hruns.1.last 85000 le_rfl ("job", 10000) ("job", 80000)
  exact absurd (hlast _ _ rfl rfl rfl rfl (by decide) (by decide)) (by decide)

end RunClock

end Zaowutai.Cron
