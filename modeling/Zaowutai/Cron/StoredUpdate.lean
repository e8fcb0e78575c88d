import Zaowutai.Cron.JobUpdate

/-!
# An update is stored as it is reported

The row that an update leaves is decoded again, and compared with the job that
the update returned and with the row before.
-/

namespace Zaowutai.Cron.Stored

open Zaowutai.Lib

namespace CronRepository

variable {repo stored : CronRepository} {now : ℤ} {userId id : String}
variable {params : UpdateCronJobParams} {row : CronJobRow}

theorem getByIdForUser_updateForUser (hrow : repo.getByIdForUser userId id = some row)
    (h : repo.updateForUser now userId id params = .ok stored) :
    ∃ updatedAt, stored.getByIdForUser userId id = some (params.writeTo updatedAt row) := by
  rw [updateForUser] at h
  split at h
  · next hkeep =>
      obtain rfl := Except.ok.inj h
      refine ⟨row.updatedAt, ?_⟩
      rw [hrow, hkeep]
      rfl
  · obtain ⟨_, _, h⟩ := bind_eq_ok.mp h
    split at h
    · obtain rfl := Except.ok.inj h
      refine ⟨now, ?_⟩
      rw [getByIdForUser] at hrow ⊢
      have hkey : (fun row : CronJobRow ↦ decide (row.userId = userId) && decide (row.id = id)) ∘
          (fun row ↦ if row.userId = userId ∧ row.id = id then params.writeTo now row else row) =
          fun row ↦ decide (row.userId = userId) && decide (row.id = id) := by
        funext row
        dsimp only [Function.comp]
        split <;> rfl
      have hfound := List.find?_some hrow
      rw [Bool.and_eq_true, decide_eq_true_eq, decide_eq_true_eq] at hfound
      rw [List.find?_map, hkey, hrow, Option.map_some, if_pos hfound]
    · cases h

end CronRepository

namespace CronEnvironment

variable {env : CronEnvironment} {times : UpdateTimes} {repo stored : CronRepository}
variable {userId jobId : String} {req : UpdateCronJobRequest} {job original : CronJob}

theorem loadJob_eq_ok :
    env.loadJob repo userId jobId = .ok job ↔
      ∃ row, repo.getByIdForUser userId jobId = some row ∧ ReadsAs env.json row job ∧
        env.resolveJobAgentType { job with agentType := "" } = .ok job.agentType := by
  rw [loadJob]
  cases repo.getByIdForUser userId jobId with
  | none => exact ⟨fun h ↦ (by cases h), fun ⟨_, h, _⟩ ↦ (by cases h)⟩
  | some row =>
      dsimp only
      rw [bind_eq_ok]
      constructor
      · rintro ⟨decoded, hdecoded, h⟩
        obtain ⟨agentType, htype, hjob⟩ := bind_eq_ok.mp h
        obtain rfl := Except.ok.inj hjob
        have hblank : { decoded with agentType := "" } = decoded := by
          rw [← agentType_of_cronJobFromRow hdecoded]
        exact ⟨row, rfl, cronJobFromRow_eq_ok.mp (hblank.symm ▸ hdecoded), hblank.symm ▸ htype⟩
      · rintro ⟨_, ⟨⟩, hreads, htype⟩
        exact ⟨_, cronJobFromRow_eq_ok.mpr hreads, bind_eq_ok.mpr ⟨_, htype, rfl⟩⟩

/-- The conversation is given up for one of its own on every run. -/
def clears (original : CronJob) (mode : ExecutionMode) : Bool :=
  decide (mode ≠ original.executionMode ∧ mode = .newConversation)

structure Updates (env : CronEnvironment) (times : UpdateTimes) (repo : CronRepository)
    (userId jobId : String) (req : UpdateCronJobRequest) (job : CronJob)
    (stored : CronRepository) (original : CronJob) (schedule : CronSchedule)
    (mode : ExecutionMode) (agent : String × Option CronAgentConfig) (changed : Bool) : Prop where
  loaded : env.loadJob repo userId jobId = .ok original
  scheduled : env.requestedSchedule req original.schedule = .ok schedule
  moded : env.requestedMode req original = .ok mode
  keeps : req.agentConfig.isSome = true → original.executionMode ≠ .existing
  configured : env.requestedAgent req original = .ok agent
  released : (job, changed) = env.releasedJob (clears original mode)
    (env.editedJob times req original schedule mode agent (clears original mode))
    original.conversationId
  stored : repo.updateForUser times.stored userId jobId
    (env.releasedParams (clears original mode) changed job req) = .ok stored

theorem updates_of_ok (h : env.updateJob times repo userId jobId req = .ok (job, stored)) :
    ∃ original schedule mode agent changed,
      Updates env times repo userId jobId req job stored original schedule mode agent changed := by
  rw [updateJob] at h
  obtain ⟨original, hloaded, h⟩ := bind_eq_ok.mp h
  obtain ⟨schedule, hschedule, h⟩ := bind_eq_ok.mp h
  obtain ⟨mode, hmode, h⟩ := bind_eq_ok.mp h
  dsimp only at h
  split at h
  · cases h
  next hkeeps =>
    obtain ⟨agent, hagent, h⟩ := bind_eq_ok.mp h
    obtain ⟨_, -, h⟩ := bind_eq_ok.mp h
    obtain ⟨after, hafter, h⟩ := bind_eq_ok.mp h
    obtain ⟨rfl, rfl⟩ := Prod.mk.inj (Except.ok.inj h)
    refine ⟨original, schedule, mode, agent, _, hloaded, hschedule, hmode, ?_, hagent, rfl, hafter⟩
    exact fun hsome hexisting ↦ hkeeps ⟨hsome, Or.inl hexisting⟩

section Parts

variable {schedule : CronSchedule} {mode : ExecutionMode} {changed : Bool}
variable {agent : String × Option CronAgentConfig}

theorem releasedJob_spec {clear : Bool} {conversationId : String} {edited : CronJob}
    (h : (job, changed) = env.releasedJob clear edited conversationId) :
    ∃ config, job = { edited with agentConfig := config } ∧
      config.bind assistantOf = edited.agentConfig.bind assistantOf ∧
        (changed = false → config = edited.agentConfig) := by
  have hkept : (job, changed) = (edited, false) → ∃ config,
      job = { edited with agentConfig := config } ∧
        config.bind assistantOf = edited.agentConfig.bind assistantOf ∧
          (changed = false → config = edited.agentConfig) := by
    intro h
    obtain ⟨rfl, rfl⟩ := Prod.mk.inj h
    exact ⟨job.agentConfig, rfl, rfl, fun _ ↦ rfl⟩
  rw [releasedJob] at h
  split at h
  · rw [clearAutoWorkspaceFromJobConfig] at h
    split at h
    · exact hkept h
    · next config hconfig =>
        split at h
        · split at h
          · obtain ⟨rfl, rfl⟩ := Prod.mk.inj h
            refine ⟨_, rfl, ?_, fun hchanged ↦ (by cases hchanged)⟩
            rw [hconfig]
            rfl
          · exact hkept h
        · exact hkept h
  · exact hkept h

theorem requestedSchedule_spec (h : env.requestedSchedule req original.schedule = .ok schedule)
    (hnone : req.schedule = none) : schedule = original.schedule := by
  rw [requestedSchedule, hnone] at h
  exact (Except.ok.inj h).symm

theorem requestedMode_spec {text : String}
    (h : env.requestedMode req original = .ok mode)
    (horiginal : ExecutionMode.fromStr text = .ok original.executionMode) :
    ExecutionMode.fromStr (req.executionMode.getD text) = .ok mode := by
  rw [requestedMode] at h
  cases hrequested : req.executionMode with
  | none =>
      rw [hrequested] at h
      rw [Option.getD_none, horiginal]
      exact h
  | some requested =>
      rw [hrequested] at h
      obtain ⟨parsed, hparsed, h⟩ := bind_eq_ok.mp h
      have hmode : parsed = mode := by
        split at h
        · obtain ⟨isTeam, -, h⟩ := bind_eq_ok.mp h
          split at h
          · cases h
          · exact Except.ok.inj h
        · exact Except.ok.inj h
      rw [← hmode]
      exact hparsed

theorem resolveNewJobAgentType_spec {config : CronAgentConfigWriteDto} {agentType : String}
    (h : env.resolveNewJobAgentType userId config = .ok agentType) :
    ∃ assistantId, config.assistantId = some assistantId ∧
      env.agentTypeForAssistant userId assistantId = .ok agentType := by
  rw [resolveNewJobAgentType] at h
  split at h
  · cases h
  · next assistantId hassistant => exact ⟨assistantId, hassistant, h⟩

theorem buildCronAgentConfig_spec {config : CronAgentConfigWriteDto} {agentType : String}
    {built : CronAgentConfig} (h : env.buildCronAgentConfig userId agentType config = .ok built) :
    built.assistantId = config.assistantId ∧
      (config.assistantId.filter fun value ↦ trim value.toList ≠ []).isSome = true := by
  rw [buildCronAgentConfig] at h
  split at h
  · cases h
  · next assistantId hassistant =>
      obtain ⟨backend, -, h⟩ := bind_eq_ok.mp h
      split at h
      · cases h
      · obtain ⟨_, -, h⟩ := bind_eq_ok.mp h
        obtain ⟨_, -, h⟩ := bind_eq_ok.mp h
        obtain rfl := Except.ok.inj h
        rw [hassistant]
        exact ⟨rfl, rfl⟩

theorem requestedAgent_spec (h : env.requestedAgent req original = .ok agent)
    (hsome : req.agentConfig.isSome = true) :
    ∃ config assistantId, agent.2 = some config ∧ assistantOf config = some assistantId ∧
      env.agentTypeForAssistant original.userId assistantId = .ok agent.1 := by
  obtain ⟨dto, hdto⟩ := Option.isSome_iff_exists.mp hsome
  rw [requestedAgent, hdto] at h
  obtain ⟨agentType, htype, h⟩ := bind_eq_ok.mp h
  obtain ⟨_, -, h⟩ := bind_eq_ok.mp h
  obtain ⟨config, hconfig, h⟩ := bind_eq_ok.mp h
  obtain rfl := Except.ok.inj h
  obtain ⟨assistantId, hassistant, hresolved⟩ := resolveNewJobAgentType_spec htype
  obtain ⟨hsame, hfilled⟩ := buildCronAgentConfig_spec hconfig
  refine ⟨config, assistantId, rfl, ?_, hresolved⟩
  rw [hassistant] at hsame hfilled
  rw [assistantOf, hsame]
  obtain ⟨value, hvalue⟩ := Option.isSome_iff_exists.mp hfilled
  have hsameValue := Option.some.inj (Option.filter_eq_some_iff.mp hvalue).1
  rw [hsameValue]
  exact hsameValue ▸ hvalue

theorem requestedAgent_none (h : env.requestedAgent req original = .ok agent)
    (hnone : req.agentConfig = none) : agent = (original.agentType, original.agentConfig) := by
  rw [requestedAgent, hnone] at h
  exact (Except.ok.inj h).symm

theorem resolveJobAgentType_blank (h : job.agentType = "") :
    env.resolveJobAgentType job =
      (job.agentConfig.bind assistantOf).elim
        (.error (.invalidAgentConfig "assistant_id is required for cron jobs"))
        (env.agentTypeForAssistant job.userId) := by
  have hblank : ¬trim job.agentType.toList ≠ [] := by
    rw [h]
    decide
  rw [resolveJobAgentType, if_neg hblank]
  cases job.agentConfig.bind assistantOf <;> rfl

end Parts

section ReadBack

variable {schedule : CronSchedule} {mode : ExecutionMode} {changed : Bool}
variable {agent : String × Option CronAgentConfig}

theorem getD_map_some {α : Type} (x y : Option α) : (x.map some).getD y = (x <|> y) := by
  cases x <;> rfl

theorem readsAs_writeTo {json : AgentConfigJson} {row : CronJobRow} {params : UpdateCronJobParams}
    {read : CronJob} {updatedAt : ℤ} (hreads : ReadsAs json row original)
    (hschedule : parseSchedule (params.scheduleKind.getD row.scheduleKind)
      (params.scheduleValue.getD row.scheduleValue) (params.scheduleTz.getD row.scheduleTz)
      (params.scheduleDescription.getD row.scheduleDescription) = .ok read.schedule)
    (hmode : ExecutionMode.fromStr (params.executionMode.getD row.executionMode) =
      .ok read.executionMode)
    (hconfig : readColumn json.fromStr (params.agentConfig.getD row.agentConfig) =
      .ok read.agentConfig)
    (hstatus : params.lastStatus = none) (hcreatedBy : read.createdBy = original.createdBy)
    (hlast : read.lastStatus = original.lastStatus)
    (hrest : { read with agentType := "" } =
      jobOfColumns (params.writeTo updatedAt row) read.schedule
        read.executionMode read.createdBy read.agentConfig read.lastStatus) :
    ReadsAs json (params.writeTo updatedAt row) read where
  schedule := hschedule
  executionMode := hmode
  createdBy := by
    rw [hcreatedBy]
    exact hreads.createdBy
  agentConfig := hconfig
  lastStatus := by
    rw [hlast, UpdateCronJobParams.writeTo, UpdateCronJobParams.applyTo, hstatus]
    exact hreads.lastStatus
  rest := hrest

theorem scheduleColumns_spec {row : CronJobRow}
    (horiginal : parseSchedule row.scheduleKind row.scheduleValue row.scheduleTz
      row.scheduleDescription = .ok original.schedule)
    (hrequested : env.requestedSchedule req original.schedule = .ok schedule)
    (hjob : job.schedule = schedule) :
    parseSchedule ((env.buildUpdateParams job req).scheduleKind.getD row.scheduleKind)
        ((env.buildUpdateParams job req).scheduleValue.getD row.scheduleValue)
        ((env.buildUpdateParams job req).scheduleTz.getD row.scheduleTz)
        ((env.buildUpdateParams job req).scheduleDescription.getD row.scheduleDescription) =
      .ok schedule := by
  rw [buildUpdateParams]
  cases hdto : req.schedule with
  | none =>
      rw [requestedSchedule_spec hrequested hdto]
      exact horiginal
  | some dto =>
      rw [← hjob]
      exact parseSchedule_rowFields job.schedule

theorem configColumn_spec {row : CronJobRow} {clear : Bool}
    (hjson : ∀ config, job.agentConfig = some config →
      env.json.fromStr (env.json.toString config) = .ok config)
    (horiginal : readColumn env.json.fromStr row.agentConfig = .ok original.agentConfig)
    (hagent : env.requestedAgent req original = .ok agent)
    (hunchanged : changed = false → job.agentConfig = agent.2) :
    readColumn env.json.fromStr
        ((env.releasedParams clear changed job req).agentConfig.getD row.agentConfig) =
      .ok job.agentConfig := by
  have hwritten : readColumn env.json.fromStr (job.agentConfig.map env.json.toString) =
      .ok job.agentConfig := by
    cases hconfig : job.agentConfig with
    | none => rfl
    | some config =>
        rw [Option.map_some, readColumn, hjson config hconfig]
        rfl
  rw [releasedParams]
  cases changed with
  | true => exact hwritten
  | false =>
      have hsame := hunchanged rfl
      cases hdto : req.agentConfig with
      | none =>
          rw [requestedAgent_none hagent hdto] at hsame
          rw [hsame, buildUpdateParams, hdto]
          exact horiginal
      | some dto =>
          obtain ⟨config, _, hconfig, -⟩ := requestedAgent_spec hagent (by rw [hdto]; rfl)
          rw [hconfig] at hsame
          rw [hsame] at hwritten ⊢
          rw [buildUpdateParams, hdto, hsame]
          exact hwritten

theorem getJob_of_updates
    (hu : Updates env times repo userId jobId req job stored original schedule mode agent changed)
    (hjson : ∀ config, job.agentConfig = some config →
      env.json.fromStr (env.json.toString config) = .ok config) :
    ∃ row updatedAt, repo.getByIdForUser userId jobId = some row ∧
      env.getJob stored userId jobId = .ok
        { job with
          conversationTitle := if clears original mode then none else job.conversationTitle
          maxRetries := row.maxRetries
          updatedAt } := by
  obtain ⟨row, hrow, hreads, htype⟩ := loadJob_eq_ok.mp hu.loaded
  obtain ⟨config, hjob, hassistant, hunchanged⟩ := releasedJob_spec hu.released
  obtain ⟨updatedAt, hafter⟩ := CronRepository.getByIdForUser_updateForUser hrow hu.stored
  have hconfig : job.agentConfig = config := by rw [hjob]
  have hschedule : job.schedule = schedule := by
    rw [hjob]
    rfl
  have hmode : job.executionMode = mode := by
    rw [hjob]
    rfl
  refine ⟨row, updatedAt, hrow, loadJob_eq_ok.mpr ⟨_, hafter, ?_, ?_⟩⟩
  · refine readsAs_writeTo hreads ?_ ?_ ?_ rfl ?_ ?_ ?_
    · exact (scheduleColumns_spec hreads.schedule hu.scheduled hschedule).trans
        (congrArg Except.ok hschedule.symm)
    · exact (requestedMode_spec hu.moded hreads.executionMode).trans
        (congrArg Except.ok hmode.symm)
    · exact configColumn_spec hjson hreads.agentConfig hu.configured fun h ↦
        hconfig.trans (hunchanged h)
    · rw [hjob]
      rfl
    · rw [hjob]
      rfl
    · rw [hjob]
      obtain ⟨schedule₀, mode₀, createdBy, config₀, status, agentType, hrow⟩ := hreads.job_eq
      by_cases hclears : clears original mode = true <;>
        by_cases hmoved : (req.schedule.isSome || req.enabled.isSome) = true
      all_goals
        simp only [releasedParams, buildUpdateParams, editedJob, hclears, hmoved, if_true,
          Bool.false_eq_true, if_false]
        simp [hrow, jobOfColumns, UpdateCronJobParams.writeTo, UpdateCronJobParams.applyTo,
          getD_map_some]
  · have htypeOf : job.agentType = agent.1 := by
      rw [hjob]
      rfl
    have huser : job.userId = original.userId := by
      rw [hjob]
      rfl
    have hresolved : (agent.2.bind assistantOf).elim
        (.error (.invalidAgentConfig "assistant_id is required for cron jobs"))
        (env.agentTypeForAssistant original.userId) = .ok agent.1 := by
      cases hdto : req.agentConfig with
      | none =>
          rw [resolveJobAgentType_blank rfl] at htype
          rw [requestedAgent_none hu.configured hdto]
          exact htype
      | some dto =>
          obtain ⟨config, assistantId, hagent, hof, htype⟩ :=
            requestedAgent_spec hu.configured (by rw [hdto]; rfl)
          rw [hagent, Option.bind_some, hof]
          exact htype
    refine (resolveJobAgentType_blank rfl).trans ?_
    dsimp only
    rw [hconfig, hassistant, huser, htypeOf]
    exact hresolved

end ReadBack

end CronEnvironment

def UpdateCronJobRequest.Switches (req : UpdateCronJobRequest) (row : CronJobRow) : Prop :=
  req.executionMode = some "new_conversation" ∧ row.executionMode = "existing"

instance (req : UpdateCronJobRequest) (row : CronJobRow) : Decidable (req.Switches row) :=
  inferInstanceAs (Decidable (_ ∧ _))

structure KeepsRest (req : UpdateCronJobRequest) (before after : CronJobRow) : Prop where
  columns : after = { before with
    name := after.name
    enabled := after.enabled
    scheduleKind := after.scheduleKind
    scheduleValue := after.scheduleValue
    scheduleTz := after.scheduleTz
    scheduleDescription := after.scheduleDescription
    payloadMessage := after.payloadMessage
    executionMode := after.executionMode
    agentConfig := after.agentConfig
    conversationTitle := after.conversationTitle
    description := after.description
    nextRunAt := after.nextRunAt
    maxRetries := after.maxRetries
    queueEnabled := after.queueEnabled
    updatedAt := after.updatedAt }
  name : req.name = none → after.name = before.name
  enabled : req.enabled = none → after.enabled = before.enabled
  schedule : req.schedule = none →
    after.scheduleKind = before.scheduleKind ∧ after.scheduleValue = before.scheduleValue ∧
      after.scheduleTz = before.scheduleTz ∧
        after.scheduleDescription = before.scheduleDescription
  message : req.message = none → after.payloadMessage = before.payloadMessage
  executionMode : req.executionMode = none → after.executionMode = before.executionMode
  agentConfig : req.agentConfig = none → ¬req.Switches before →
    after.agentConfig = before.agentConfig
  conversationTitle : req.conversationTitle = none → ¬req.Switches before →
    after.conversationTitle = before.conversationTitle
  cleared : req.Switches before → after.conversationTitle = none
  description : req.description = none → after.description = before.description
  nextRunAt : req.schedule = none → req.enabled = none → after.nextRunAt = before.nextRunAt
  maxRetries : req.maxRetries = none → after.maxRetries = before.maxRetries
  queueEnabled : req.queueEnabled = none → after.queueEnabled = before.queueEnabled

structure StoresWhatItReports (env : CronEnvironment) (repo stored : CronRepository)
    (userId jobId : String) (req : UpdateCronJobRequest) (job : CronJob) : Prop where
  readBack : ∃ read, env.getJob stored userId jobId = .ok read ∧
    { read with updatedAt := job.updatedAt } = job
  kept : ∀ before after, repo.getByIdForUser userId jobId = some before →
    stored.getByIdForUser userId jobId = some after → KeepsRest req before after

namespace CronEnvironment

section Stores

variable {env : CronEnvironment} {times : UpdateTimes} {repo stored : CronRepository}
variable {userId jobId : String} {req : UpdateCronJobRequest} {job original : CronJob}
variable {schedule : CronSchedule} {mode : ExecutionMode} {changed : Bool}
variable {agent : String × Option CronAgentConfig} {row : CronJobRow}

theorem fromStr_eq_existing {s : String} :
    ExecutionMode.fromStr s = .ok .existing ↔ s = "existing" := by
  rw [ExecutionMode.fromStr]
  split
  · next h => exact ⟨fun _ ↦ h, fun _ ↦ rfl⟩
  · next h =>
      split
      · exact ⟨fun hok ↦ (by cases hok), fun hs ↦ absurd hs h⟩
      · exact ⟨fun hok ↦ (by cases hok), fun hs ↦ absurd hs h⟩

theorem fromStr_eq_newConversation {s : String} :
    ExecutionMode.fromStr s = .ok .newConversation ↔ s = "new_conversation" := by
  rw [ExecutionMode.fromStr]
  split
  · next h => exact ⟨fun hok ↦ (by cases hok), fun hs ↦ absurd (h.symm.trans hs) (by decide)⟩
  · split
    · next h => exact ⟨fun _ ↦ h, fun _ ↦ rfl⟩
    · next h => exact ⟨fun hok ↦ (by cases hok), fun hs ↦ absurd hs h⟩

theorem clears_iff (hrow : ExecutionMode.fromStr row.executionMode = .ok original.executionMode)
    (hmode : env.requestedMode req original = .ok mode) :
    clears original mode = true ↔ req.Switches row := by
  have hafter := requestedMode_spec hmode hrow
  rw [clears, decide_eq_true_eq, UpdateCronJobRequest.Switches]
  constructor
  · rintro ⟨hne, rfl⟩
    cases horiginal : original.executionMode with
    | newConversation => exact absurd horiginal.symm hne
    | existing =>
        rw [horiginal] at hrow
        have hexisting := fromStr_eq_existing.mp hrow
        have hnew := fromStr_eq_newConversation.mp hafter
        cases hrequested : req.executionMode with
        | none =>
            rw [hrequested, Option.getD_none, hexisting] at hnew
            exact absurd hnew (by decide)
        | some text =>
            rw [hrequested, Option.getD_some] at hnew
            exact ⟨congrArg some hnew, hexisting⟩
  · rintro ⟨hrequested, hexisting⟩
    rw [hexisting] at hrow
    rw [hrequested, Option.getD_some] at hafter
    have horiginal := Except.ok.inj (hrow.symm.trans (fromStr_eq_existing.mpr rfl))
    have hnew := Except.ok.inj (hafter.symm.trans (fromStr_eq_newConversation.mpr rfl))
    rw [horiginal, hnew]
    decide

theorem releasedJob_changed {clear changed : Bool} {conversationId : String} {edited : CronJob}
    (h : (job, changed) = env.releasedJob clear edited conversationId) (hclear : clear = false) :
    changed = false := by
  rw [releasedJob, hclear] at h
  exact (Prod.mk.inj h).2

theorem keepsRest_of_updates
    (hu : Updates env times repo userId jobId req job stored original schedule mode agent changed)
    (hbefore : repo.getByIdForUser userId jobId = some row) {after : CronJobRow}
    (hafter : stored.getByIdForUser userId jobId = some after) : KeepsRest req row after := by
  obtain ⟨_, hrow, hreads, -⟩ := loadJob_eq_ok.mp hu.loaded
  obtain rfl := Option.some.inj (hbefore.symm.trans hrow)
  obtain ⟨updatedAt, hwritten⟩ := CronRepository.getByIdForUser_updateForUser hbefore hu.stored
  obtain rfl := Option.some.inj (hwritten.symm.trans hafter)
  have hclears := clears_iff hreads.executionMode hu.moded
  exact
    { columns := rfl
      name := fun h ↦ congrArg (·.getD row.name) h
      enabled := fun h ↦ congrArg (·.getD row.enabled) h
      schedule := fun h ↦ by
        simp [UpdateCronJobParams.writeTo, UpdateCronJobParams.applyTo, releasedParams,
          buildUpdateParams, h]
      message := fun h ↦ congrArg (·.getD row.payloadMessage) h
      executionMode := fun h ↦ congrArg (·.getD row.executionMode) h
      agentConfig := fun h hstays ↦ by
        have hkeeps : clears original mode = false := by
          rw [← Bool.not_eq_true, hclears]
          exact hstays
        have hsame := releasedJob_changed hu.released hkeeps
        simp [UpdateCronJobParams.writeTo, UpdateCronJobParams.applyTo, releasedParams,
          buildUpdateParams, h, hsame]
      conversationTitle := fun h hstays ↦ by
        have hkeeps : clears original mode = false := by
          rw [← Bool.not_eq_true, hclears]
          exact hstays
        simp [UpdateCronJobParams.writeTo, UpdateCronJobParams.applyTo, releasedParams,
          buildUpdateParams, h, hkeeps]
      cleared := fun h ↦ by
        simp [UpdateCronJobParams.writeTo, UpdateCronJobParams.applyTo, releasedParams,
          hclears.mpr h]
      description := fun h ↦ by
        simp [UpdateCronJobParams.writeTo, UpdateCronJobParams.applyTo, releasedParams,
          buildUpdateParams, h]
      nextRunAt := fun hschedule henabled ↦ by
        simp [UpdateCronJobParams.writeTo, UpdateCronJobParams.applyTo, releasedParams,
          buildUpdateParams, hschedule, henabled]
      maxRetries := fun _ ↦ rfl
      queueEnabled := fun h ↦ congrArg (·.getD row.queueEnabled) h }

/-- An update stores what it reports exactly if the number of retries stays as it is stored, and
no title is stored for a conversation that it gives up. -/
theorem storesWhatItReports_iff (times : UpdateTimes)
    (hok : env.updateJob times repo userId jobId req = .ok (job, stored))
    (hjson : ∀ config, job.agentConfig = some config →
      env.json.fromStr (env.json.toString config) = .ok config) :
    ∃ row, repo.getByIdForUser userId jobId = some row ∧
      (StoresWhatItReports env repo stored userId jobId req job ↔
        (∀ maxRetries, req.maxRetries = some maxRetries → maxRetries = row.maxRetries) ∧
          (req.Switches row → row.conversationTitle = none)) := by
  obtain ⟨original, schedule, mode, agent, changed, hu⟩ := updates_of_ok hok
  obtain ⟨row, updatedAt, hrow, hread⟩ := getJob_of_updates hu hjson
  obtain ⟨_, hrow', hreads, -⟩ := loadJob_eq_ok.mp hu.loaded
  obtain rfl := Option.some.inj (hrow.symm.trans hrow')
  have hclears := clears_iff hreads.executionMode hu.moded
  obtain ⟨config, hjob, -, -⟩ := releasedJob_spec hu.released
  obtain ⟨schedule₀, mode₀, createdBy, config₀, status, agentType, horiginal⟩ := hreads.job_eq
  have hretries : job.maxRetries = req.maxRetries.getD row.maxRetries := by
    rw [hjob, horiginal]
    rfl
  have htitle : clears original mode = true → job.conversationTitle = row.conversationTitle := by
    intro hclear
    rw [hjob]
    simp only [editedJob, hclear, if_true]
    rw [horiginal]
    rfl
  refine ⟨row, hrow, ?_, ?_⟩
  · rintro ⟨⟨read, hsame, hequal⟩, -⟩
    obtain rfl := Except.ok.inj (hread.symm.trans hsame)
    have hnumber : row.maxRetries = job.maxRetries := congrArg CronJob.maxRetries hequal
    have hname : (if clears original mode then none else job.conversationTitle) =
        job.conversationTitle := congrArg CronJob.conversationTitle hequal
    constructor
    · intro maxRetries hrequested
      rw [hretries, hrequested, Option.getD_some] at hnumber
      exact hnumber.symm
    · intro hswitches
      have hclear := hclears.mpr hswitches
      rw [if_pos hclear, htitle hclear] at hname
      exact hname.symm
  · rintro ⟨hnumber, hname⟩
    refine ⟨⟨_, hread, ?_⟩, fun before after hbefore hafter ↦ ?_⟩
    · have hsameRetries : row.maxRetries = job.maxRetries := by
        rw [hretries]
        cases hrequested : req.maxRetries with
        | none => rfl
        | some maxRetries => exact (hnumber maxRetries hrequested).symm
      have hsameTitle : (if clears original mode then none else job.conversationTitle) =
          job.conversationTitle := by
        split
        · next hclear => rw [htitle hclear, hname (hclears.mp hclear)]
        · rfl
      dsimp only
      rw [hsameRetries, hsameTitle]
    · exact keepsRest_of_updates hu hbefore hafter

end Stores

def reportConfig : CronAgentConfig where
  name := "Report"
  cliPath := none
  isPreset := none
  assistantId := some "a1"
  customAgentId := none
  mode := none
  modelId := none
  model := none
  configOptions := none
  workspace := none

def reportText : String := "\x7b\"name\":\"Report\",\"assistant_id\":\"a1\"\x7d"

def reportEnvironment : CronEnvironment where
  lib := ⟨fun _ _ ↦ true, fun _ _ now ↦ some (now + 60000)⟩
  json :=
    { toString := fun config ↦ if config = reportConfig then reportText else ""
      fromStr := fun text ↦
        if text = reportText then .ok reportConfig else .error (.json "expected value") }
  agentTypeForAssistant := fun _ _ ↦ .ok "acp"
  assistantBackend := fun _ _ ↦ .ok (some "codex")
  fullAutoMode := fun _ _ _ _ ↦ .ok "yolo"
  isTeamConversation := fun _ ↦ .ok false
  autoWorkspaceToDelete := fun _ _ ↦ .ok none
  workspaceMatchesPath := fun _ _ ↦ false
  validateJobWorkspace := fun _ ↦ .ok ()

def reportRow : CronJobRow where
  id := "cron_1"
  userId := "u"
  name := "Report"
  enabled := true
  scheduleKind := "every"
  scheduleValue := "60000"
  scheduleTz := none
  scheduleDescription := none
  payloadMessage := "report"
  executionMode := "existing"
  agentConfig := some reportText
  conversationId := "c"
  conversationTitle := some "Daily"
  createdBy := "user"
  skillContent := none
  description := none
  createdAt := 0
  updatedAt := 0
  nextRunAt := some 60000
  lastRunAt := none
  lastStatus := none
  lastError := none
  runCount := 0
  retryCount := 0
  maxRetries := 3
  queueEnabled := false

def reportRepository : CronRepository := ⟨[reportRow], fun _ _ ↦ true⟩

def reportTimes : UpdateTimes := ⟨100, 101, 102⟩

def emptyRequest : UpdateCronJobRequest :=
  ⟨none, none, none, none, none, none, none, none, none, none⟩

/-- The number of retries is reported and not stored; the title of a conversation that is given up
is reported and removed. -/
theorem not_storesWhatItReports :
    (∃ job stored, reportEnvironment.updateJob reportTimes reportRepository "u" "cron_1"
        { emptyRequest with maxRetries := some 5 } = .ok (job, stored) ∧
      ¬StoresWhatItReports reportEnvironment reportRepository stored "u" "cron_1"
        { emptyRequest with maxRetries := some 5 } job) ∧
    ∃ job stored, reportEnvironment.updateJob reportTimes reportRepository "u" "cron_1"
        { emptyRequest with executionMode := some "new_conversation" } = .ok (job, stored) ∧
      ¬StoresWhatItReports reportEnvironment reportRepository stored "u" "cron_1"
        { emptyRequest with executionMode := some "new_conversation" } job := by
  constructor
  · refine ⟨_, _, rfl, fun h ↦ ?_⟩
    obtain ⟨read, hread, hequal⟩ := h.readBack
    have hnumber : read.maxRetries = 5 := congrArg CronJob.maxRetries hequal
    have hstored := congrArg (fun result ↦ result.map CronJob.maxRetries) hread
    rw [Except.map, hnumber] at hstored
    exact absurd hstored (by decide +kernel)
  · refine ⟨_, _, rfl, fun h ↦ ?_⟩
    obtain ⟨read, hread, hequal⟩ := h.readBack
    have hname : read.conversationTitle = some "Daily" :=
      congrArg CronJob.conversationTitle hequal
    have hstored := congrArg (fun result ↦ result.map CronJob.conversationTitle) hread
    rw [Except.map, hname] at hstored
    exact absurd hstored (by decide +kernel)

def severalFields : UpdateCronJobRequest :=
  { emptyRequest with
    name := some "Report again"
    schedule := some (.cron "0 9 * * *" none (some "at nine"))
    enabled := some false
    conversationTitle := some "Weekly"
    maxRetries := some 3 }

theorem severalFields_stored :
    ∃ job stored, reportEnvironment.updateJob reportTimes reportRepository "u" "cron_1"
        severalFields = .ok (job, stored) ∧
      ∃ row, reportRepository.getByIdForUser "u" "cron_1" = some row ∧
        (StoresWhatItReports reportEnvironment reportRepository stored "u" "cron_1" severalFields
            job ↔
          (∀ maxRetries, severalFields.maxRetries = some maxRetries →
            maxRetries = row.maxRetries) ∧
            (severalFields.Switches row → row.conversationTitle = none)) :=
  ⟨_, _, rfl, storesWhatItReports_iff reportTimes rfl (by
    rintro config ⟨⟩
    rfl)⟩

end CronEnvironment

end Zaowutai.Cron.Stored
