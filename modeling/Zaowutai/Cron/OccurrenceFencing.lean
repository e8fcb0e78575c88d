import Zaowutai.Lib.Run
import Zaowutai.Cron.RunLedger

/-!
# Fencing of a cron occurrence

The ledger records which instance of the backend owns a run, not which claim
of that instance.  An execution whose lease passed while it was asleep is kept
out by a claim of another instance, but not by a later claim of its own.
-/

namespace Zaowutai.Cron

open Zaowutai.Lib

namespace CronRunStatus

def Moves (before after : CronRunStatus) : Prop :=
  after = before ∨ before = .running ∨ before = .retrying ∧ after = .running

instance (before after : CronRunStatus) : Decidable (before.Moves after) := by
  unfold Moves
  infer_instance

theorem Moves.refl (status : CronRunStatus) : status.Moves status := .inl rfl

theorem Moves.eq_of_isTerminal {before after : CronRunStatus} (h : before.Moves after)
    (hterminal : before.isTerminal = true) : after = before := by
  rcases h with h | rfl | ⟨rfl, -⟩
  · exact h
  · cases hterminal
  · cases hterminal

end CronRunStatus

namespace CronRepository

variable {r : CronRepository} {key : String × ℤ} {run : CronJobRun}

theorem claimRun_kept (params : ClaimCronRunParams) (h : r.run? key = some run) :
    ∃ run', (r.claimRun params).1.run? key = some run' ∧ run.status.Moves run'.status := by
  rcases r.claimRun_cases params with
    ⟨-, heq⟩ | ⟨-, ⟨expired, hrun, hexpired, heq⟩ | ⟨hnone, ⟨-, heq⟩ | ⟨-, heq⟩⟩⟩
  · exact ⟨run, by rw [heq, h], .refl _⟩
  · rw [heq]
    by_cases hkey : key = params.key
    · subst hkey
      obtain rfl : expired = run := Option.some.inj (hrun.symm.trans h)
      refine ⟨expired.reclaim params, by rw [run?_modifyRun, if_pos rfl, hrun]; rfl, ?_⟩
      have hunfinished : expired.status.isTerminal = false := by
        simp only [CronJobRun.isExpired, Bool.and_eq_true, CronRunStatus.isUnfinished,
          Bool.not_eq_true'] at hexpired
        exact hexpired.1
      cases hstatus : expired.status with
      | running => exact .inr (.inl rfl)
      | retrying => exact .inr (.inr ⟨rfl, rfl⟩)
      | ok | error | skipped =>
          rw [hstatus] at hunfinished
          cases hunfinished
    · exact ⟨run, by rw [run?_modifyRun, if_neg hkey, h], .refl _⟩
  all_goals
    rw [heq]
    have hkey : key ≠ params.key := by
      rintro rfl
      cases hnone.symm.trans h
    exact ⟨run, by rw [run?_insertRun, if_neg hkey, h], .refl _⟩

theorem perform_kept (call : OwnerCall) (e : String × ℤ) (ownerId : String)
    (h : r.run? key = some run) :
    ∃ run', (call.perform r e.1 e.2 ownerId).1.run? key = some run' ∧
      run.status.Moves run'.status := by
  rw [OwnerCall.perform_eq]
  rcases r.updateOwned_cases e.1 e.2 ownerId call.update with ⟨-, heq⟩ | ⟨howned, heq⟩
  · exact ⟨run, by rw [heq, h], .refl _⟩
  · rw [heq]
    by_cases hkey : key = e
    · subst hkey
      obtain ⟨-, run₁, hrun₁, hrunning, -⟩ := r.isOwned_iff.mp howned
      obtain rfl : run₁ = run := Option.some.inj (hrun₁.symm.trans h)
      refine ⟨call.update run₁, ?_, .inr (.inl hrunning)⟩
      rw [run?_modifyRun, if_pos rfl, h, Option.map_some]
    · exact ⟨run, by rw [run?_modifyRun, if_neg hkey, h], .refl _⟩

theorem run?_cleanupRunsBefore (cutoff : ℤ) (h : r.run? key = some run) :
    (r.cleanupRunsBefore cutoff).run? key = some run ∨
      (r.cleanupRunsBefore cutoff).run? key = none ∧ run.status.isTerminal = true := by
  have hlookup : (r.cleanupRunsBefore cutoff).run? key = Option.filter _ (r.run? key) :=
    Table.lookup_retain _
  rw [hlookup, h, Option.filter_some]
  split
  · exact .inl rfl
  · next hremoved =>
      have hold : run.status.isTerminal = true ∧ run.finishedAt.any (· < cutoff) = true := by
        simpa using hremoved
      exact .inr ⟨rfl, hold.1⟩

theorem run?_cleanupRunsBefore_of_none (cutoff : ℤ) (h : r.run? key = none) :
    (r.cleanupRunsBefore cutoff).run? key = none := by
  have hlookup : (r.cleanupRunsBefore cutoff).run? key = Option.filter _ (r.run? key) :=
    Table.lookup_retain _
  rw [hlookup, h, Option.filter_none]

end CronRepository

/-- What executes an occurrence after a claim of it succeeded.  The claims are numbered, so that
two claims of one instance are told apart. -/
structure Execution where
  number : ℕ
  jobId : String
  scheduledAt : ℤ
  ownerId : String
  deriving DecidableEq, Repr

def Execution.key (e : Execution) : String × ℤ := (e.jobId, e.scheduledAt)

inductive LedgerCall
  | claimRun (params : ClaimCronRunParams)
  | owner (e : Execution) (call : OwnerCall)
  | cleanupRunsBefore (cutoff now : ℤ)

def LedgerCall.now : LedgerCall → ℤ
  | .claimRun params => params.now
  | .owner _ call => call.now
  | .cleanupRunsBefore _ now => now

def LedgerCall.cutoff : LedgerCall → Option ℤ
  | .cleanupRunsBefore cutoff _ => some cutoff
  | .claimRun _ | .owner _ _ => none

def runHistoryRetentionMs : ℤ := 30 * 24 * 60 * 60 * 1000

/-- The ledger with its history: the executions from the latest claim to the first, the
occurrences that were finished, and those whose row was removed afterwards. -/
structure CronLedger where
  repo : CronRepository
  executions : List Execution
  finished : List (String × ℤ)
  cleaned : List (String × ℤ)
  clock : ℤ

namespace CronLedger

def start (jobs : Table String (Option String)) (clock : ℤ) : CronLedger :=
  ⟨⟨jobs, ∅⟩, [], [], [], clock⟩

variable (s : CronLedger)

def lastClaim (key : String × ℤ) : Option Execution := s.executions.find? (·.key = key)

def claimRun (params : ClaimCronRunParams) : CronLedger :=
  let out := s.repo.claimRun params
  { s with
    repo := out.1
    executions := if out.2 = .claimed then
        ⟨s.executions.length, params.jobId, params.scheduledAt, params.ownerId⟩ :: s.executions
      else s.executions
    clock := params.now }

def performOwner (e : Execution) (call : OwnerCall) : CronLedger :=
  let out := call.perform s.repo e.jobId e.scheduledAt e.ownerId
  { s with
    repo := out.1
    finished := if out.2 && call.isFinish then e.key :: s.finished else s.finished
    clock := call.now }

def cleanupRunsBefore (cutoff now : ℤ) : CronLedger :=
  let repo := s.repo.cleanupRunsBefore cutoff
  { s with
    repo
    cleaned := s.finished.filter (fun key ↦ (repo.run? key).isNone) ++ s.cleaned
    clock := now }

def step : LedgerCall → CronLedger
  | .claimRun params => s.claimRun params
  | .owner e call => if e ∈ s.executions then s.performOwner e call else s
  | .cleanupRunsBefore cutoff now => s.cleanupRunsBefore cutoff now

def Timely (call : LedgerCall) : Prop :=
  s.clock ≤ call.now ∧ call.cutoff.all (· ≤ call.now - runHistoryRetentionMs) = true

instance (call : LedgerCall) : Decidable (s.Timely call) := by
  unfold Timely
  infer_instance

structure Fenced (call : LedgerCall) : Prop where
  moves : ∀ key run run', s.repo.run? key = some run → (s.step call).repo.run? key = some run' →
    run.status.Moves run'.status
  removes : ∀ key run, s.repo.run? key = some run → (s.step call).repo.run? key = none →
    run.status.isTerminal = true
  reclaims : ∀ params run, call = .claimRun params → (s.repo.claimRun params).2 = .claimed →
    s.repo.run? params.key = some run →
      run.status.isUnfinished = true ∧ ∃ lease, run.leaseUntil = some lease ∧ lease ≤ params.now
  holder : ∀ e ownerCall, call = .owner e ownerCall → e ∈ s.executions →
    (ownerCall.perform s.repo e.jobId e.scheduledAt e.ownerId).2 = true →
      s.lastClaim e.key = some e
  once : ∀ e ownerCall, call = .owner e ownerCall → e ∈ s.executions →
    ownerCall.isFinish = true →
      (ownerCall.perform s.repo e.jobId e.scheduledAt e.ownerId).2 = true → e.key ∉ s.finished

def Unsuperseded : LedgerCall → Prop
  | .owner e call => e ∈ s.executions → ∀ run last, s.repo.run? e.key = some run →
      run.status = .running → s.lastClaim e.key = some last → last.ownerId = e.ownerId →
        last = e ∧ (call.isFinish = true → e.key ∉ s.cleaned)
  | .claimRun _ | .cleanupRunsBefore _ _ => True

structure Accounted : Prop where
  owner : ∀ key run, s.repo.run? key = some run → run.status = .running →
    ∃ last, s.lastClaim key = some last ∧ run.ownerId = some last.ownerId
  job : ∀ e ∈ s.executions, s.repo.jobHasOwner e.jobId = true
  finished : ∀ key ∈ s.finished, key ∈ s.cleaned ∨
    ∃ run, s.repo.run? key = some run ∧ run.status.isTerminal = true
  cleaned : ∀ key ∈ s.cleaned, key ∈ s.finished

variable {s}

theorem step_moves (call : LedgerCall) {key : String × ℤ} {run : CronJobRun}
    (h : s.repo.run? key = some run) :
    (∃ run', (s.step call).repo.run? key = some run' ∧ run.status.Moves run'.status) ∨
      (s.step call).repo.run? key = none ∧ run.status.isTerminal = true := by
  cases call with
  | claimRun params => exact .inl (CronRepository.claimRun_kept params h)
  | owner e call =>
      left
      rw [step]
      split
      · exact CronRepository.perform_kept call e.key e.ownerId h
      · exact ⟨run, h, .refl _⟩
  | cleanupRunsBefore cutoff now =>
      rcases CronRepository.run?_cleanupRunsBefore cutoff h with hkept | hremoved
      · exact .inl ⟨run, hkept, .refl _⟩
      · exact .inr hremoved

theorem Accounted.performed_iff (h : s.Accounted) {e : Execution} (he : e ∈ s.executions)
    (call : OwnerCall) :
    (call.perform s.repo e.jobId e.scheduledAt e.ownerId).2 = true ↔
      ∃ run last, s.repo.run? e.key = some run ∧ run.status = .running ∧
        s.lastClaim e.key = some last ∧ last.ownerId = e.ownerId := by
  have hperformed : (call.perform s.repo e.jobId e.scheduledAt e.ownerId).2 = true ↔
      s.repo.isOwned e.jobId e.scheduledAt e.ownerId = true := by
    rw [OwnerCall.perform_eq, CronRepository.updateOwned_snd]
  rw [hperformed, CronRepository.isOwned_iff]
  constructor
  · rintro ⟨-, run, hrun, hrunning, howner⟩
    obtain ⟨last, hlast, hlastOwner⟩ := h.owner e.key run hrun hrunning
    exact ⟨run, last, hrun, hrunning, hlast, Option.some.inj (hlastOwner.symm.trans howner)⟩
  · rintro ⟨run, last, hrun, hrunning, hlast, hsame⟩
    obtain ⟨last', hlast', howner⟩ := h.owner e.key run hrun hrunning
    obtain rfl : last' = last := Option.some.inj (hlast'.symm.trans hlast)
    exact ⟨h.job e he, run, hrun, hrunning, hsame ▸ howner⟩

theorem Accounted.cleaned_of_finished (h : s.Accounted) {key : String × ℤ} {run : CronJobRun}
    (hrun : s.repo.run? key = some run) (hrunning : run.status = .running)
    (hfinished : key ∈ s.finished) : key ∈ s.cleaned := by
  rcases h.finished key hfinished with hcleaned | ⟨run', hrun', hterminal⟩
  · exact hcleaned
  · obtain rfl : run' = run := Option.some.inj (hrun'.symm.trans hrun)
    rw [hrunning] at hterminal
    cases hterminal

theorem Accounted.fenced_iff (h : s.Accounted) (call : LedgerCall) :
    s.Fenced call ↔ s.Unsuperseded call := by
  constructor
  · intro hfenced
    cases call with
    | claimRun _ | cleanupRunsBefore _ _ => trivial
    | owner e call =>
        intro he run last hrun hrunning hlast hsame
        have hperformed := (h.performed_iff he call).mpr ⟨run, last, hrun, hrunning, hlast, hsame⟩
        constructor
        · exact Option.some.inj (hlast.symm.trans (hfenced.holder e call rfl he hperformed))
        · intro hfinish hcleaned
          exact hfenced.once e call rfl he hfinish hperformed (h.cleaned _ hcleaned)
  · intro hguard
    refine ⟨?_, ?_, ?_, ?_, ?_⟩
    · intro key run run' hrun hrun'
      rcases step_moves call hrun with ⟨after, hafter, hmoves⟩ | ⟨hnone, -⟩
      · rw [hafter] at hrun'
        exact Option.some.inj hrun' ▸ hmoves
      · rw [hnone] at hrun'
        cases hrun'
    · intro key run hrun hnone
      rcases step_moves call hrun with ⟨after, hafter, -⟩ | ⟨-, hterminal⟩
      · rw [hafter] at hnone
        cases hnone
      · exact hterminal
    · rintro params run rfl hclaimed hrun
      rcases s.repo.claimRun_cases params with
        ⟨-, heq⟩ | ⟨-, ⟨expired, hexpired, hpassed, -⟩ | ⟨hnone, -⟩⟩
      · rw [heq] at hclaimed
        cases hclaimed
      · obtain rfl : expired = run := Option.some.inj (hexpired.symm.trans hrun)
        simpa [CronJobRun.isExpired, Option.any_eq_true] using hpassed
      · cases hnone.symm.trans hrun
    · rintro e call rfl he hperformed
      obtain ⟨run, last, hrun, hrunning, hlast, hsame⟩ := (h.performed_iff he call).mp hperformed
      rw [hlast, (hguard he run last hrun hrunning hlast hsame).1]
    · rintro e call rfl he hfinish hperformed hfinished
      obtain ⟨run, last, hrun, hrunning, hlast, hsame⟩ := (h.performed_iff he call).mp hperformed
      exact (hguard he run last hrun hrunning hlast hsame).2 hfinish
        (h.cleaned_of_finished hrun hrunning hfinished)

theorem accounted_start (jobs : Table String (Option String)) (clock : ℤ) :
    (start jobs clock).Accounted where
  owner key run h _ := by cases h
  job _ h := absurd h List.not_mem_nil
  finished _ h := absurd h List.not_mem_nil
  cleaned _ h := absurd h List.not_mem_nil

theorem jobHasOwner_step (call : LedgerCall) (jobId : String) :
    (s.step call).repo.jobHasOwner jobId = s.repo.jobHasOwner jobId := by
  have hjobs : (s.step call).repo.cronJobs = s.repo.cronJobs := by
    cases call with
    | claimRun params => exact s.repo.cronJobs_claimRun params
    | owner e call =>
        rw [step]
        split
        · simp only [performOwner, OwnerCall.perform_eq, CronRepository.cronJobs_updateOwned]
        · rfl
    | cleanupRunsBefore _ _ => rfl
  rw [CronRepository.jobHasOwner, CronRepository.jobHasOwner, hjobs]

theorem Accounted.owner_claimed (h : s.Accounted) {params : ClaimCronRunParams}
    {repo : CronRepository} {claimed : CronJobRun}
    (heq : s.repo.claimRun params = (repo, .claimed))
    (hown : claimed.ownerId = some params.ownerId)
    (hrun? : ∀ key, repo.run? key = if key = params.key then some claimed else s.repo.run? key)
    {key : String × ℤ} {run : CronJobRun} (hrun : (s.claimRun params).repo.run? key = some run)
    (hrunning : run.status = .running) :
    ∃ last, (s.claimRun params).lastClaim key = some last ∧ run.ownerId = some last.ownerId := by
  simp only [CronLedger.claimRun, heq, lastClaim, hrun?, reduceIte] at hrun ⊢
  by_cases hkey : key = params.key
  · subst hkey
    rw [if_pos rfl] at hrun
    cases hrun
    refine ⟨⟨s.executions.length, params.jobId, params.scheduledAt, params.ownerId⟩, ?_, hown⟩
    rw [List.find?_cons_of_pos (by simp [Execution.key, ClaimCronRunParams.key])]
  · rw [if_neg hkey] at hrun
    obtain ⟨last, hlast, howner⟩ := h.owner key run hrun hrunning
    refine ⟨last, ?_, howner⟩
    rw [List.find?_cons_of_neg]
    · exact hlast
    · exact fun hsame ↦ hkey (of_decide_eq_true hsame).symm

theorem Accounted.job_claimed (h : s.Accounted) {params : ClaimCronRunParams}
    (howner : s.repo.jobHasOwner params.jobId = true) :
    ∀ e ∈ (s.claimRun params).executions,
      (s.claimRun params).repo.jobHasOwner e.jobId = true := by
  intro e he
  have hjob : (s.claimRun params).repo.jobHasOwner e.jobId = s.repo.jobHasOwner e.jobId :=
    jobHasOwner_step (.claimRun params) e.jobId
  rw [hjob]
  simp only [CronLedger.claimRun] at he
  split at he
  · rcases List.mem_cons.mp he with rfl | he
    · exact howner
    · exact h.job e he
  · exact h.job e he

theorem Accounted.claimRun (h : s.Accounted) (params : ClaimCronRunParams) :
    (s.claimRun params).Accounted := by
  have hkept : ∀ key ∈ s.finished, key ∈ s.cleaned ∨
      ∃ run, (s.claimRun params).repo.run? key = some run ∧ run.status.isTerminal = true := by
    intro key hfinished
    rcases h.finished key hfinished with hcleaned | ⟨run, hrun, hterminal⟩
    · exact .inl hcleaned
    · obtain ⟨run', hrun', hmoves⟩ := CronRepository.claimRun_kept params hrun
      refine .inr ⟨run', hrun', ?_⟩
      rw [hmoves.eq_of_isTerminal hterminal]
      exact hterminal
  rcases s.repo.claimRun_cases params with
    ⟨-, heq⟩ | ⟨howner, ⟨expired, hrun, -, heq⟩ | ⟨hnone, ⟨-, heq⟩ | ⟨-, heq⟩⟩⟩
  · refine ⟨?_, ?_, hkept, h.cleaned⟩ <;> simp only [CronLedger.claimRun, heq]
    · exact h.owner
    · exact h.job
  · have hown : (expired.reclaim params).ownerId = some params.ownerId := rfl
    exact ⟨fun key run ↦ h.owner_claimed heq hown (s.repo.run?_modifyRun_of_some hrun _),
      h.job_claimed howner, hkept, h.cleaned⟩
  · refine ⟨?_, h.job_claimed howner, hkept, h.cleaned⟩
    intro key run hrun hrunning
    simp only [CronLedger.claimRun, heq, CronRepository.run?_insertRun, lastClaim] at hrun ⊢
    split at hrun
    · cases hrun
      cases hrunning
    · exact h.owner key run hrun hrunning
  · have hown : (CronJobRun.started params).ownerId = some params.ownerId := rfl
    exact ⟨fun key run ↦ h.owner_claimed heq hown fun key ↦
      CronRepository.run?_insertRun s.repo params.key key (.started params),
      h.job_claimed howner, hkept, h.cleaned⟩

theorem ownerId_update (call : OwnerCall) {run : CronJobRun}
    (hrunning : (call.update run).status = .running) :
    (call.update run).ownerId = run.ownerId := by
  cases call with
  | renewRunLease _ _ => rfl
  | deferRun _ _ => cases hrunning
  | finishRun status _ _ _ terminal =>
      have hstatus : status = .running := hrunning
      rw [hstatus] at terminal
      cases terminal

theorem Accounted.performOwner (h : s.Accounted) {e : Execution} (he : e ∈ s.executions)
    (call : OwnerCall) : (s.performOwner e call).Accounted := by
  have hstep : s.step (.owner e call) = s.performOwner e call := by rw [step, if_pos he]
  have hjob : ∀ e' ∈ s.executions, (s.performOwner e call).repo.jobHasOwner e'.jobId = true := by
    intro e' he'
    rw [← hstep, jobHasOwner_step]
    exact h.job e' he'
  have hkept : ∀ key ∈ s.finished, key ∈ s.cleaned ∨
      ∃ run, (s.performOwner e call).repo.run? key = some run ∧ run.status.isTerminal = true := by
    intro key hfinished
    rcases h.finished key hfinished with hcleaned | ⟨run, hrun, hterminal⟩
    · exact .inl hcleaned
    · obtain ⟨run', hrun', hmoves⟩ := CronRepository.perform_kept call e.key e.ownerId hrun
      refine .inr ⟨run', hrun', ?_⟩
      rw [hmoves.eq_of_isTerminal hterminal]
      exact hterminal
  rcases s.repo.updateOwned_cases e.jobId e.scheduledAt e.ownerId call.update with
    ⟨-, heq⟩ | ⟨howned, heq⟩
  · refine ⟨?_, hjob, ?_, ?_⟩ <;>
      simp only [CronLedger.performOwner, OwnerCall.perform_eq, heq] at hkept ⊢
    · exact h.owner
    · exact hkept
    · exact h.cleaned
  · obtain ⟨-, run₁, hrun₁, hrunning₁, howner₁⟩ := s.repo.isOwned_iff.mp howned
    have hrun? : ∀ key, (s.performOwner e call).repo.run? key =
        if key = e.key then some (call.update run₁) else s.repo.run? key := by
      simp only [CronLedger.performOwner, OwnerCall.perform_eq, heq]
      exact s.repo.run?_modifyRun_of_some hrun₁ call.update
    refine ⟨?_, hjob, ?_, ?_⟩
    · intro key run hrun hrunning
      rw [hrun?] at hrun
      split at hrun
      · next hkey =>
          cases hrun
          rw [ownerId_update call hrunning, hkey]
          exact h.owner e.key run₁ hrun₁ hrunning₁
      · exact h.owner key run hrun hrunning
    · intro key hfinished
      simp only [CronLedger.performOwner, OwnerCall.perform_eq, heq, Bool.true_and] at hfinished
      split at hfinished
      · next hfinish =>
          rcases List.mem_cons.mp hfinished with rfl | hfinished
          · refine .inr ⟨call.update run₁, ?_, OwnerCall.isTerminal_update hfinish run₁⟩
            rw [hrun?, if_pos rfl]
          · exact hkept key hfinished
      · exact hkept key hfinished
    · intro key hcleaned
      have hbefore := h.cleaned key hcleaned
      simp only [CronLedger.performOwner]
      split
      · exact List.mem_cons_of_mem _ hbefore
      · exact hbefore

theorem Accounted.cleanupRunsBefore (h : s.Accounted) (cutoff now : ℤ) :
    (s.cleanupRunsBefore cutoff now).Accounted := by
  refine ⟨?_, h.job, ?_, ?_⟩
  · intro key run hrun hrunning
    cases hbefore : s.repo.run? key with
    | none => cases (CronRepository.run?_cleanupRunsBefore_of_none cutoff hbefore).symm.trans hrun
    | some before =>
        rcases CronRepository.run?_cleanupRunsBefore cutoff hbefore with hkept | ⟨hnone, -⟩
        · obtain rfl : before = run := Option.some.inj (hkept.symm.trans hrun)
          exact h.owner key before hbefore hrunning
        · cases hnone.symm.trans hrun
  · intro key hfinished
    rcases h.finished key hfinished with hcleaned | ⟨run, hrun, hterminal⟩
    · exact .inl (List.mem_append_right _ hcleaned)
    · rcases CronRepository.run?_cleanupRunsBefore cutoff hrun with hkept | ⟨hnone, -⟩
      · exact .inr ⟨run, hkept, hterminal⟩
      · left
        apply List.mem_append_left
        rw [List.mem_filter, hnone]
        exact ⟨hfinished, rfl⟩
  · intro key hcleaned
    rcases List.mem_append.mp hcleaned with hnew | hold
    · exact List.mem_of_mem_filter hnew
    · exact h.cleaned key hold

theorem Accounted.step (h : s.Accounted) (call : LedgerCall) : (s.step call).Accounted := by
  cases call with
  | claimRun params => exact h.claimRun params
  | owner e call =>
      rw [CronLedger.step]
      split
      · next he => exact h.performOwner he call
      · exact h
  | cleanupRunsBefore cutoff now => exact h.cleanupRunsBefore cutoff now

/-- In every run, whatever its clock, the ledger is fenced exactly if no superseded execution writes
to a run of its own instance. -/
theorem fenced_iff_unsuperseded (jobs : Table String (Option String)) (clock : ℤ)
    (calls : List LedgerCall) :
    Meets step Fenced (start jobs clock) calls ↔
      Meets step Unsuperseded (start jobs clock) calls :=
  meets_iff_meets (fun _ call h _ ↦ h.step call) (fun _ call h ↦ h.fenced_iff call)
    (accounted_start jobs clock)

/-- The machine slept past the lease, and the instance claimed the occurrence a second time; the
first execution ends the run under the second one. -/
def wokenTwice : List LedgerCall :=
  [.claimRun ⟨"job", 0, "instance", 0, 60000, true⟩,
    .claimRun ⟨"job", 0, "instance", 60000, 120000, true⟩,
    .owner ⟨0, "job", 0, "instance"⟩ (.finishRun .ok none none 60000 CronRunStatus.isTerminal_ok)]

theorem superseded_execution_ends_run :
    ¬∀ jobs clock calls, Meets step Timely (start jobs clock) calls →
      Meets step Fenced (start jobs clock) calls := by
  intro h
  have hjobs := h (AList.insert "job" (some "user") ∅) 0 wokenTwice (by decide)
  have hholder := hjobs.2.2.1.holder ⟨0, "job", 0, "instance"⟩ _ rfl (by decide) (by decide)
  exact absurd hholder (by decide)

end CronLedger

end Zaowutai.Cron
