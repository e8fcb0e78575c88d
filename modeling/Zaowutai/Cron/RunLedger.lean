import Mathlib.Data.List.Sort
import Zaowutai.Lib.Table

/-!
# The ledger of cron occurrences

Each occurrence of a job has at most one row.  It is claimed under a lease by
an instance of the backend, renewed, deferred to a retry and finished; every
operation is one transaction.
-/

namespace Zaowutai.Cron

open Zaowutai.Lib

inductive CronRunStatus
  | running
  | retrying
  | ok
  | error
  | skipped
  deriving DecidableEq, Repr

namespace CronRunStatus

def isTerminal : CronRunStatus → Bool
  | .ok | .error | .skipped => true
  | .running | .retrying => false

theorem isTerminal_ok : ok.isTerminal = true := rfl

/-- A run that is active as long as its lease has not passed. -/
def isUnfinished (status : CronRunStatus) : Bool := !status.isTerminal

end CronRunStatus

structure CronJobRun where
  status : CronRunStatus
  ownerId : Option String
  leaseUntil : Option ℤ
  conversationId : Option String
  error : Option String
  startedAt : Option ℤ
  finishedAt : Option ℤ
  createdAt : ℤ
  updatedAt : ℤ
  deriving DecidableEq, Repr

inductive CronRunClaimResult
  | claimed
  | duplicate
  | queueBusy
  deriving DecidableEq, Repr

structure ClaimCronRunParams where
  jobId : String
  scheduledAt : ℤ
  ownerId : String
  now : ℤ
  leaseUntil : ℤ
  queueEnabled : Bool
  deriving DecidableEq, Repr

def ClaimCronRunParams.key (params : ClaimCronRunParams) : String × ℤ :=
  (params.jobId, params.scheduledAt)

structure FinishCronRunParams where
  jobId : String
  scheduledAt : ℤ
  ownerId : String
  status : CronRunStatus
  conversationId : Option String
  error : Option String
  finishedAt : ℤ
  terminal : status.isTerminal = true
  deriving DecidableEq, Repr

structure RecoverableCronRun where
  scheduledAt : ℤ
  wakeAt : ℤ
  deriving DecidableEq, Repr

structure CronRepository where
  cronJobs : Table String (Option String)
  cronJobRuns : Table (String × ℤ) CronJobRun

namespace CronJobRun

def isExpired (run : CronJobRun) (now : ℤ) : Bool :=
  run.status.isUnfinished && run.leaseUntil.any (· ≤ now)

def isActive (run : CronJobRun) (now : ℤ) : Bool :=
  run.status.isUnfinished && run.leaseUntil.any (now < ·)

def reclaim (params : ClaimCronRunParams) (run : CronJobRun) : CronJobRun :=
  { run with
    status := .running
    ownerId := some params.ownerId
    leaseUntil := some params.leaseUntil
    startedAt := run.startedAt.or (some params.now)
    finishedAt := none
    error := none
    updatedAt := params.now }

def started (params : ClaimCronRunParams) : CronJobRun where
  status := .running
  ownerId := some params.ownerId
  leaseUntil := some params.leaseUntil
  conversationId := none
  error := none
  startedAt := some params.now
  finishedAt := none
  createdAt := params.now
  updatedAt := params.now

def skipped (params : ClaimCronRunParams) : CronJobRun where
  status := .skipped
  ownerId := none
  leaseUntil := none
  conversationId := none
  error := none
  startedAt := none
  finishedAt := some params.now
  createdAt := params.now
  updatedAt := params.now

end CronJobRun

namespace CronRepository

variable (r : CronRepository)

def jobHasOwner (jobId : String) : Bool :=
  (r.cronJobs.lookup jobId).any fun userId ↦ userId.any (· ≠ "")

def hasActiveRun (jobId : String) (now : ℤ) : Bool :=
  r.cronJobRuns.entries.any fun entry ↦ entry.1.1 = jobId && entry.2.isActive now

def run? (key : String × ℤ) : Option CronJobRun := r.cronJobRuns.lookup key

def insertRun (key : String × ℤ) (run : CronJobRun) : CronRepository :=
  { r with cronJobRuns := r.cronJobRuns.insert key run }

def modifyRun (key : String × ℤ) (update : CronJobRun → CronJobRun) : CronRepository :=
  { r with cronJobRuns := r.cronJobRuns.modify key update }

def hasUnfinishedRun (jobId : String) : Bool :=
  r.cronJobRuns.entries.any fun entry ↦ entry.1.1 = jobId && entry.2.status.isUnfinished

def claimRun (params : ClaimCronRunParams) : CronRepository × CronRunClaimResult :=
  let key := params.key
  if !r.jobHasOwner params.jobId then (r, .duplicate)
  else
    match r.run? key with
    | some run =>
        if run.isExpired params.now then (r.modifyRun key (·.reclaim params), .claimed)
        else (r, .duplicate)
    | none =>
        if params.queueEnabled && r.hasActiveRun params.jobId params.now then
          (r.insertRun key (.skipped params), .queueBusy)
        else (r.insertRun key (.started params), .claimed)

def isOwned (jobId : String) (scheduledAt : ℤ) (ownerId : String) : Bool :=
  r.jobHasOwner jobId && (r.run? (jobId, scheduledAt)).any fun run ↦
    run.status = .running && run.ownerId = some ownerId

def updateOwned (jobId : String) (scheduledAt : ℤ) (ownerId : String)
    (update : CronJobRun → CronJobRun) : CronRepository × Bool :=
  if r.isOwned jobId scheduledAt ownerId then (r.modifyRun (jobId, scheduledAt) update, true)
  else (r, false)

def renewRunLease (jobId : String) (scheduledAt : ℤ) (ownerId : String)
    (leaseUntil updatedAt : ℤ) : CronRepository × Bool :=
  r.updateOwned jobId scheduledAt ownerId fun run ↦
    { run with leaseUntil := some leaseUntil, updatedAt }

def deferRun (jobId : String) (scheduledAt : ℤ) (ownerId : String) (retryAt updatedAt : ℤ) :
    CronRepository × Bool :=
  r.updateOwned jobId scheduledAt ownerId fun run ↦
    { run with status := .retrying, ownerId := none, leaseUntil := some retryAt, updatedAt }

def finishRun (params : FinishCronRunParams) : CronRepository × Bool :=
  r.updateOwned params.jobId params.scheduledAt params.ownerId fun run ↦
    { run with
      status := params.status
      conversationId := params.conversationId
      error := params.error
      leaseUntil := none
      finishedAt := some params.finishedAt
      updatedAt := params.finishedAt }

def getRecoverableRun (jobId : String) (now : ℤ) : Option RecoverableCronRun :=
  if !r.jobHasOwner jobId then none
  else
    let leases := r.cronJobRuns.entries.filterMap fun entry ↦
      if entry.1.1 = jobId && entry.2.status.isUnfinished then
        entry.2.leaseUntil.map fun lease ↦ (entry.1.2, lease)
      else none
    let byLease := leases.insertionSort fun lease other ↦ lease.2 ≤ other.2
    byLease.head?.map fun first ↦ ⟨first.1, max first.2 now⟩

def deleteJob (jobId : String) : CronRepository where
  cronJobs := r.cronJobs.erase jobId
  cronJobRuns := r.cronJobRuns.retain fun key _ ↦ key.1 ≠ jobId

def cleanupRunsBefore (cutoff : ℤ) : CronRepository :=
  { r with cronJobRuns := r.cronJobRuns.retain fun _ run ↦
      !(run.status.isTerminal && run.finishedAt.any (· < cutoff)) }

end CronRepository

inductive OwnerCall
  | renewRunLease (leaseUntil updatedAt : ℤ)
  | deferRun (retryAt updatedAt : ℤ)
  | finishRun (status : CronRunStatus) (conversationId error : Option String) (finishedAt : ℤ)
      (terminal : status.isTerminal = true)
  deriving DecidableEq, Repr

namespace OwnerCall

def perform (call : OwnerCall) (r : CronRepository) (jobId : String) (scheduledAt : ℤ)
    (ownerId : String) : CronRepository × Bool :=
  match call with
  | .renewRunLease leaseUntil updatedAt =>
      r.renewRunLease jobId scheduledAt ownerId leaseUntil updatedAt
  | .deferRun retryAt updatedAt => r.deferRun jobId scheduledAt ownerId retryAt updatedAt
  | .finishRun status conversationId error finishedAt terminal =>
      r.finishRun ⟨jobId, scheduledAt, ownerId, status, conversationId, error, finishedAt, terminal⟩

/-- The row of the occurrence after the call. -/
def update : OwnerCall → CronJobRun → CronJobRun
  | .renewRunLease leaseUntil updatedAt, run => { run with leaseUntil := some leaseUntil, updatedAt }
  | .deferRun retryAt updatedAt, run =>
      { run with status := .retrying, ownerId := none, leaseUntil := some retryAt, updatedAt }
  | .finishRun status conversationId error finishedAt _, run =>
      { run with
        status
        conversationId
        error
        leaseUntil := none
        finishedAt := some finishedAt
        updatedAt := finishedAt }

def now : OwnerCall → ℤ
  | .renewRunLease _ updatedAt => updatedAt
  | .deferRun _ updatedAt => updatedAt
  | .finishRun _ _ _ finishedAt _ => finishedAt

def isFinish : OwnerCall → Bool
  | .finishRun _ _ _ _ _ => true
  | .renewRunLease _ _ | .deferRun _ _ => false

theorem perform_eq (call : OwnerCall) (r : CronRepository) (jobId : String) (scheduledAt : ℤ)
    (ownerId : String) :
    call.perform r jobId scheduledAt ownerId =
      r.updateOwned jobId scheduledAt ownerId call.update := by
  cases call <;> rfl

theorem isTerminal_update {call : OwnerCall} (h : call.isFinish = true) (run : CronJobRun) :
    (call.update run).status.isTerminal = true := by
  cases call with
  | finishRun status conversationId error finishedAt terminal => exact terminal
  | renewRunLease _ _ | deferRun _ _ => cases h

end OwnerCall

namespace CronRepository

variable (r : CronRepository)

@[simp] theorem cronJobs_insertRun (key : String × ℤ) (run : CronJobRun) :
    (r.insertRun key run).cronJobs = r.cronJobs := rfl

@[simp] theorem cronJobs_modifyRun (key : String × ℤ) (update : CronJobRun → CronJobRun) :
    (r.modifyRun key update).cronJobs = r.cronJobs := rfl

theorem run?_insertRun (key other : String × ℤ) (run : CronJobRun) :
    (r.insertRun key run).run? other = if other = key then some run else r.run? other :=
  Table.lookup_insert_eq run

theorem run?_modifyRun (key other : String × ℤ) (update : CronJobRun → CronJobRun) :
    (r.modifyRun key update).run? other =
      if other = key then (r.run? other).map update else r.run? other :=
  Table.lookup_modify update

theorem hasUnfinishedRun_iff {jobId : String} :
    r.hasUnfinishedRun jobId = true ↔
      ∃ key run, key.1 = jobId ∧ r.run? key = some run ∧ run.status.isUnfinished = true := by
  simp only [hasUnfinishedRun, List.any_eq_true, Bool.and_eq_true, decide_eq_true_eq]
  constructor
  · rintro ⟨⟨key, run⟩, hmem, hjob, hunfinished⟩
    exact ⟨key, run, hjob, Table.mem_entries_iff.mp hmem, hunfinished⟩
  · rintro ⟨key, run, hjob, hrun, hunfinished⟩
    exact ⟨⟨key, run⟩, Table.mem_entries_iff.mpr hrun, hjob, hunfinished⟩

theorem run?_modifyRun_of_some {key : String × ℤ} {run : CronJobRun} (h : r.run? key = some run)
    (update : CronJobRun → CronJobRun) (other : String × ℤ) :
    (r.modifyRun key update).run? other =
      if other = key then some (update run) else r.run? other := by
  rw [run?_modifyRun]
  split
  · next hkey => rw [hkey, h, Option.map_some]
  · rfl

theorem claimRun_cases (params : ClaimCronRunParams) :
    (r.jobHasOwner params.jobId = false ∨
        ∃ run, r.run? params.key = some run ∧ run.isExpired params.now = false) ∧
          r.claimRun params = (r, .duplicate) ∨
      r.jobHasOwner params.jobId = true ∧
        ((∃ run, r.run? params.key = some run ∧ run.isExpired params.now = true ∧
            r.claimRun params = (r.modifyRun params.key (·.reclaim params), .claimed)) ∨
          r.run? params.key = none ∧
            ((params.queueEnabled && r.hasActiveRun params.jobId params.now) = true ∧
                r.claimRun params = (r.insertRun params.key (.skipped params), .queueBusy) ∨
              (params.queueEnabled && r.hasActiveRun params.jobId params.now) = false ∧
                r.claimRun params = (r.insertRun params.key (.started params), .claimed))) := by
  simp only [claimRun]
  split
  · next hnot => exact .inl ⟨.inl (by simpa using hnot), rfl⟩
  · next howner =>
      have howner : r.jobHasOwner params.jobId = true := by simpa using howner
      split
      · next run hrun =>
          split
          · next hexpired => exact .inr ⟨howner, .inl ⟨run, hrun, hexpired, rfl⟩⟩
          · next hleased =>
              exact .inl ⟨.inr ⟨run, hrun, Bool.eq_false_iff.mpr hleased⟩, rfl⟩
      · next hnone =>
          split
          · next hbusy => exact .inr ⟨howner, .inr ⟨hnone, .inl ⟨hbusy, rfl⟩⟩⟩
          · next hfree =>
              exact .inr ⟨howner, .inr ⟨hnone, .inr ⟨Bool.eq_false_iff.mpr hfree, rfl⟩⟩⟩

theorem updateOwned_cases (jobId : String) (scheduledAt : ℤ) (ownerId : String)
    (update : CronJobRun → CronJobRun) :
    r.isOwned jobId scheduledAt ownerId = false ∧
        r.updateOwned jobId scheduledAt ownerId update = (r, false) ∨
      r.isOwned jobId scheduledAt ownerId = true ∧
        r.updateOwned jobId scheduledAt ownerId update =
          (r.modifyRun (jobId, scheduledAt) update, true) := by
  rw [updateOwned]
  split
  · next howned => exact .inr ⟨howned, rfl⟩
  · next hnot => exact .inl ⟨Bool.eq_false_iff.mpr hnot, rfl⟩

theorem updateOwned_snd (jobId : String) (scheduledAt : ℤ) (ownerId : String)
    (update : CronJobRun → CronJobRun) :
    (r.updateOwned jobId scheduledAt ownerId update).2 = r.isOwned jobId scheduledAt ownerId := by
  rcases r.updateOwned_cases jobId scheduledAt ownerId update with ⟨hnot, heq⟩ | ⟨howned, heq⟩
  · rw [heq, hnot]
  · rw [heq, howned]

theorem isOwned_iff {jobId : String} {scheduledAt : ℤ} {ownerId : String} :
    r.isOwned jobId scheduledAt ownerId = true ↔
      r.jobHasOwner jobId = true ∧ ∃ run, r.run? (jobId, scheduledAt) = some run ∧
        run.status = .running ∧ run.ownerId = some ownerId := by
  simp [isOwned, Option.any_eq_true]

theorem hasUnfinishedRun_of_claimed {params : ClaimCronRunParams}
    (h : (r.claimRun params).2 = .claimed) :
    (r.claimRun params).1.hasUnfinishedRun params.jobId = true := by
  rw [hasUnfinishedRun_iff]
  rcases r.claimRun_cases params with
    ⟨-, heq⟩ | ⟨-, ⟨run, hrun, -, heq⟩ | ⟨-, ⟨-, heq⟩ | ⟨-, heq⟩⟩⟩ <;> rw [heq] at h ⊢
  · cases h
  · refine ⟨params.key, run.reclaim params, rfl, ?_, rfl⟩
    rw [r.run?_modifyRun_of_some hrun, if_pos rfl]
  · cases h
  · exact ⟨params.key, .started params, rfl, by rw [run?_insertRun, if_pos rfl], rfl⟩

theorem hasUnfinishedRun_renewRunLease {jobId : String} {scheduledAt : ℤ} {ownerId : String}
    {leaseUntil updatedAt : ℤ} {job : String} (h : r.hasUnfinishedRun job = true) :
    (r.renewRunLease jobId scheduledAt ownerId leaseUntil updatedAt).1.hasUnfinishedRun job =
      true := by
  obtain ⟨key, run, hjob, hrun, hunfinished⟩ := r.hasUnfinishedRun_iff.mp h
  rw [renewRunLease, hasUnfinishedRun_iff]
  rcases r.updateOwned_cases jobId scheduledAt ownerId fun run ↦
      { run with leaseUntil := some leaseUntil, updatedAt := updatedAt } with
    ⟨-, heq⟩ | ⟨-, heq⟩ <;> rw [heq]
  · exact ⟨key, run, hjob, hrun, hunfinished⟩
  · by_cases hkey : key = (jobId, scheduledAt)
    · refine ⟨key, _, hjob, by rw [run?_modifyRun, if_pos hkey, hrun, Option.map_some], ?_⟩
      exact hunfinished
    · exact ⟨key, run, hjob, by rw [run?_modifyRun, if_neg hkey, hrun], hunfinished⟩

@[simp] theorem cronJobs_claimRun (params : ClaimCronRunParams) :
    (r.claimRun params).1.cronJobs = r.cronJobs := by
  rcases r.claimRun_cases params with ⟨_, heq⟩ | ⟨_, ⟨_, _, _, heq⟩ | ⟨_, ⟨_, heq⟩ | ⟨_, heq⟩⟩⟩ <;>
    simp [heq]

@[simp] theorem cronJobs_updateOwned (jobId : String) (scheduledAt : ℤ) (ownerId : String)
    (update : CronJobRun → CronJobRun) :
    (r.updateOwned jobId scheduledAt ownerId update).1.cronJobs = r.cronJobs := by
  rcases r.updateOwned_cases jobId scheduledAt ownerId update with ⟨_, heq⟩ | ⟨_, heq⟩ <;>
    simp [heq]

end CronRepository

end Zaowutai.Cron
