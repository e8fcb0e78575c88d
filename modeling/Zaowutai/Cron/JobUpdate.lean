import Zaowutai.Cron.JobRecord

/-!
# An update of a job

An update is expressed four times: on the job that is returned, in the
parameters of the repository, in the columns that the statement sets and in
what the row says afterwards.  What the rest of the service answers meanwhile,
about assistants, conversations and directories, does not change.
-/

namespace Zaowutai.Cron.Stored

open Zaowutai.Lib

inductive CronScheduleDto
  | at (atMs : I64) (description : Option String)
  | every (everyMs : I64) (description : Option String)
  | cron (expr : String) (tz : Option String) (description : Option String)
  deriving DecidableEq

structure CronAgentConfigWriteDto where
  name : String
  cliPath : Option String
  assistantId : Option String
  mode : Option String
  modelId : Option String
  model : Option ProviderWithModel
  configOptions : Option (List (String × String))
  workspace : Option String
  deriving DecidableEq, Repr

structure UpdateCronJobRequest where
  name : Option String
  description : Option String
  enabled : Option Bool
  schedule : Option CronScheduleDto
  message : Option String
  executionMode : Option String
  agentConfig : Option CronAgentConfigWriteDto
  conversationTitle : Option String
  maxRetries : Option ℤ
  queueEnabled : Option Bool
  deriving DecidableEq

/-- All fields are optional; `none` keeps the current value. -/
structure UpdateCronJobParams where
  name : Option String
  enabled : Option Bool
  scheduleKind : Option String
  scheduleValue : Option String
  scheduleTz : Option (Option String)
  scheduleDescription : Option (Option String)
  payloadMessage : Option String
  executionMode : Option String
  agentConfig : Option (Option String)
  conversationId : Option String
  conversationTitle : Option (Option String)
  skillContent : Option (Option String)
  description : Option (Option String)
  nextRunAt : Option (Option ℤ)
  lastRunAt : Option (Option ℤ)
  lastStatus : Option (Option String)
  lastError : Option (Option String)
  runCount : Option ℤ
  retryCount : Option ℤ
  queueEnabled : Option Bool
  deriving DecidableEq, Repr

def UpdateCronJobParams.applyTo (params : UpdateCronJobParams) (row : CronJobRow) : CronJobRow :=
  { row with
    name := params.name.getD row.name
    enabled := params.enabled.getD row.enabled
    scheduleKind := params.scheduleKind.getD row.scheduleKind
    scheduleValue := params.scheduleValue.getD row.scheduleValue
    scheduleTz := params.scheduleTz.getD row.scheduleTz
    scheduleDescription := params.scheduleDescription.getD row.scheduleDescription
    payloadMessage := params.payloadMessage.getD row.payloadMessage
    executionMode := params.executionMode.getD row.executionMode
    agentConfig := params.agentConfig.getD row.agentConfig
    conversationId := params.conversationId.getD row.conversationId
    conversationTitle := params.conversationTitle.getD row.conversationTitle
    skillContent := params.skillContent.getD row.skillContent
    description := params.description.getD row.description
    nextRunAt := params.nextRunAt.getD row.nextRunAt
    lastRunAt := params.lastRunAt.getD row.lastRunAt
    lastStatus := params.lastStatus.getD row.lastStatus
    lastError := params.lastError.getD row.lastError
    runCount := params.runCount.getD row.runCount
    retryCount := params.retryCount.getD row.retryCount
    queueEnabled := params.queueEnabled.getD row.queueEnabled }

/-- Whatever is set, the time of the update is set with it. -/
def UpdateCronJobParams.writeTo (params : UpdateCronJobParams) (now : ℤ) (row : CronJobRow) :
    CronJobRow :=
  { params.applyTo row with updatedAt := now }

def UpdateCronJobParams.keep : UpdateCronJobParams where
  name := none
  enabled := none
  scheduleKind := none
  scheduleValue := none
  scheduleTz := none
  scheduleDescription := none
  payloadMessage := none
  executionMode := none
  agentConfig := none
  conversationId := none
  conversationTitle := none
  skillContent := none
  description := none
  nextRunAt := none
  lastRunAt := none
  lastStatus := none
  lastError := none
  runCount := none
  retryCount := none
  queueEnabled := none

structure CronRepository where
  rows : List CronJobRow
  ownsConversation : String → String → Bool

namespace CronRepository

variable (repo : CronRepository)

def getByIdForUser (userId id : String) : Option CronJobRow :=
  repo.rows.find? fun row ↦ row.userId = userId && row.id = id

def validateConversationOwner (userId : String) : Option String → Except CronError Unit
  | none => .ok ()
  | some conversationId =>
      if trim conversationId.toList = [] ∨ repo.ownsConversation userId conversationId = true then
        .ok ()
      else .error (.database ("conversation '" ++ conversationId ++ "'"))

/-- A statement that sets no column is not sent. -/
def updateForUser (now : ℤ) (userId id : String) (params : UpdateCronJobParams) :
    Except CronError CronRepository :=
  if params = .keep then .ok repo
  else do
    repo.validateConversationOwner userId params.conversationId
    if repo.rows.any fun row ↦ row.userId = userId && row.id = id then
      return { repo with
        rows := repo.rows.map fun row ↦
          if row.userId = userId ∧ row.id = id then params.writeTo now row else row }
    else throw (.database ("cron job '" ++ id ++ "'"))

end CronRepository

structure CronEnvironment where
  lib : CronLibrary
  json : AgentConfigJson
  agentTypeForAssistant : String → String → Except CronError String
  assistantBackend : String → String → Except CronError (Option String)
  fullAutoMode : String → String → String → String → Except CronError String
  isTeamConversation : String → Except CronError Bool
  autoWorkspaceToDelete : String → String → Except CronError (Option String)
  workspaceMatchesPath : String → String → Bool
  validateJobWorkspace : CronJob → Except CronError Unit

structure UpdateTimes where
  computed : ℤ
  updated : ℤ
  stored : ℤ

def parseExecutionMode : Option String → Except CronError ExecutionMode
  | none => .ok .existing
  | some mode => ExecutionMode.fromStr mode

def scheduleFromDto : CronScheduleDto → CronSchedule
  | .at atMs description => .at atMs description
  | .every everyMs description => .every everyMs description
  | .cron expr tz description => .cron expr tz description

/-- A cron expression without a time zone keeps the one of the job. -/
def scheduleFromDtoWithExistingTimezone (dto : CronScheduleDto) (existing : CronSchedule) :
    CronSchedule :=
  match dto with
  | .cron expr tz description =>
      .cron expr
        (tz <|> match existing with
          | .cron _ tz _ => tz
          | .at _ _ | .every _ _ => none)
        description
  | dto => scheduleFromDto dto

/-- The assistant without the whitespace around it; a blank one is none. -/
def sanitizeAgentConfigDto (config : CronAgentConfigWriteDto) : CronAgentConfigWriteDto :=
  match config.assistantId with
  | none => config
  | some value =>
      let trimmed := String.ofList (trim value.toList)
      if trimmed = "" then { config with assistantId := none }
      else { config with assistantId := some trimmed }

def aionrsModelRequired : CronError :=
  .invalidAgentConfig
    "aionrs cron jobs require agent_config.model.provider_id and agent_config.model.model"

def normalizeModel (model : Option ProviderWithModel) (runtimeAgentType : String) :
    Except CronError (Option ProviderWithModel) :=
  match model with
  | none => .ok none
  | some model =>
      let providerId := String.ofList (trim model.providerId.toList)
      let name := String.ofList (trim model.model.toList)
      let useModel :=
        (model.useModel.map fun value ↦ String.ofList (trim value.toList)).filter (· ≠ "")
      if runtimeAgentType = "aionrs" ∧ (providerId = "" ∨ name = "") then .error aionrsModelRequired
      else if providerId = "" ∨ name = "" then .ok none
      else .ok (some ⟨providerId, name, useModel⟩)

def validateAionrsAgentConfig (agentType : String) (config : CronAgentConfigWriteDto) :
    Except CronError Unit :=
  if agentType ≠ "aionrs" then .ok ()
  else if config.model.any fun model ↦
      trim model.providerId.toList ≠ [] && trim model.model.toList ≠ [] then .ok ()
  else .error aionrsModelRequired

namespace CronEnvironment

variable (env : CronEnvironment)

def validateSchedule (schedule : CronSchedule) : Except CronError Unit :=
  if Cron.validateSchedule env.lib schedule.timing then .ok ()
  else
    match schedule with
    | .cron expr _ _ => .error (.invalidCronExpression expr)
    | .at _ _ | .every _ _ => .error (.invalidSchedule "every_ms must be positive")

def resolveNewJobAgentType (userId : String) (config : CronAgentConfigWriteDto) :
    Except CronError String :=
  match config.assistantId with
  | none => .error (.invalidAgentConfig "assistant_id is required for new cron jobs")
  | some assistantId => env.agentTypeForAssistant userId assistantId

def assistantOf (config : CronAgentConfig) : Option String :=
  (config.assistantId <|> config.customAgentId).filter fun value ↦ trim value.toList ≠ []

def resolveJobAgentType (job : CronJob) : Except CronError String :=
  if trim job.agentType.toList ≠ [] then .ok job.agentType
  else
    match job.agentConfig.bind assistantOf with
    | none => .error (.invalidAgentConfig "assistant_id is required for cron jobs")
    | some assistantId => env.agentTypeForAssistant job.userId assistantId

def isTeamConversationJob (job : CronJob) : Except CronError Bool :=
  let conversationId := String.ofList (trim job.conversationId.toList)
  if conversationId = "" then .ok false else env.isTeamConversation conversationId

def buildCronAgentConfig (userId runtimeAgentType : String) (config : CronAgentConfigWriteDto) :
    Except CronError CronAgentConfig :=
  match config.assistantId.filter fun value ↦ trim value.toList ≠ [] with
  | none => .error (.invalidAgentConfig "assistant_id is required for cron jobs")
  | some assistantId => do
      let backend ← env.assistantBackend userId assistantId
      match backend with
      | none =>
          throw (.invalidAgentConfig
            ("assistant '" ++ assistantId ++ "' could not resolve a runtime backend"))
      | some backend => do
          let fullAutoMode ← env.fullAutoMode userId runtimeAgentType assistantId backend
          let model ← normalizeModel config.model runtimeAgentType
          return {
            name := config.name
            cliPath := config.cliPath
            isPreset := none
            assistantId := config.assistantId
            customAgentId := none
            mode := some fullAutoMode
            modelId := config.modelId
            model
            configOptions := config.configOptions
            workspace := config.workspace }

/-- The job without the directory that goes with its conversation, if it works there. -/
def clearAutoWorkspaceFromJobConfig (job : CronJob) (conversationId : String) : CronJob × Bool :=
  match job.agentConfig with
  | none => (job, false)
  | some config =>
      match config.workspace, env.autoWorkspaceToDelete job.userId conversationId with
      | some workspace, .ok (some path) =>
          if env.workspaceMatchesPath workspace path then
            ({ job with agentConfig := some { config with workspace := none } }, true)
          else (job, false)
      | _, _ => (job, false)

def releasedJob (clearConversationBinding : Bool) (job : CronJob) (conversationId : String) :
    CronJob × Bool :=
  if clearConversationBinding then env.clearAutoWorkspaceFromJobConfig job conversationId
  else (job, false)

def requestedSchedule (req : UpdateCronJobRequest) (existing : CronSchedule) :
    Except CronError CronSchedule :=
  match req.schedule with
  | none => .ok existing
  | some dto => do
      let schedule := scheduleFromDtoWithExistingTimezone dto existing
      env.validateSchedule schedule
      return schedule

def requestedMode (req : UpdateCronJobRequest) (job : CronJob) : Except CronError ExecutionMode :=
  match req.executionMode with
  | none => .ok job.executionMode
  | some mode => do
      let requested ← parseExecutionMode (some mode)
      if requested ≠ job.executionMode then
        let isTeam ← env.isTeamConversationJob job
        if isTeam then
          throw (.invalidExecutionMode
            "Team cron jobs must keep running in their owning Team conversation")
      return requested

def requestedAgent (req : UpdateCronJobRequest) (job : CronJob) :
    Except CronError (String × Option CronAgentConfig) :=
  match req.agentConfig with
  | none => .ok (job.agentType, job.agentConfig)
  | some dto => do
      let config := sanitizeAgentConfigDto dto
      let agentType ← env.resolveNewJobAgentType job.userId config
      validateAionrsAgentConfig agentType config
      let agentConfig ← env.buildCronAgentConfig job.userId agentType config
      return (agentType, some agentConfig)

def buildUpdateParams (job : CronJob) (req : UpdateCronJobRequest) : UpdateCronJobParams :=
  let columns := req.schedule.map fun _ ↦ scheduleToRowFields job.schedule
  { name := req.name
    enabled := req.enabled
    scheduleKind := columns.map (·.kind)
    scheduleValue := columns.map (·.value)
    scheduleTz := columns.map (·.tz)
    scheduleDescription := columns.map (·.description)
    payloadMessage := req.message
    executionMode := req.executionMode
    agentConfig := req.agentConfig.bind fun _ ↦
      job.agentConfig.map fun config ↦ some (env.json.toString config)
    conversationId := none
    conversationTitle := req.conversationTitle.map some
    skillContent := none
    description := req.description.map some
    nextRunAt := if req.schedule.isSome || req.enabled.isSome then some job.nextRunAt else none
    lastRunAt := none
    lastStatus := none
    lastError := none
    runCount := none
    retryCount := none
    queueEnabled := req.queueEnabled }

def releasedParams (clearConversationBinding agentConfigChanged : Bool) (job : CronJob)
    (req : UpdateCronJobRequest) : UpdateCronJobParams :=
  let params := env.buildUpdateParams job req
  { params with
    conversationTitle := if clearConversationBinding then some none else params.conversationTitle
    agentConfig :=
      if agentConfigChanged then some (job.agentConfig.map env.json.toString)
      else params.agentConfig }

def editedJob (times : UpdateTimes) (req : UpdateCronJobRequest) (job : CronJob)
    (schedule : CronSchedule) (mode : ExecutionMode)
    (agent : String × Option CronAgentConfig) (clearConversationBinding : Bool) : CronJob :=
  { job with
    name := req.name.getD job.name
    description := req.description <|> job.description
    enabled := req.enabled.getD job.enabled
    schedule
    message := req.message.getD job.message
    executionMode := mode
    agentType := agent.1
    agentConfig := agent.2
    conversationTitle :=
      if clearConversationBinding then job.conversationTitle
      else req.conversationTitle <|> job.conversationTitle
    maxRetries := req.maxRetries.getD job.maxRetries
    queueEnabled := req.queueEnabled.getD job.queueEnabled
    nextRunAt :=
      if req.schedule.isSome || req.enabled.isSome then
        computeNextRun env.lib schedule.timing times.computed
      else job.nextRunAt
    updatedAt := times.updated }

def loadJob (repo : CronRepository) (userId jobId : String) : Except CronError CronJob :=
  match repo.getByIdForUser userId jobId with
  | none => .error (.jobNotFound jobId)
  | some row => do
      let job ← cronJobFromRow env.json row
      let agentType ← env.resolveJobAgentType job
      return { job with agentType }

def getJob (repo : CronRepository) (userId jobId : String) : Except CronError CronJob :=
  env.loadJob repo userId jobId

def updateJob (times : UpdateTimes) (repo : CronRepository) (userId jobId : String)
    (req : UpdateCronJobRequest) : Except CronError (CronJob × CronRepository) := do
  let original ← env.loadJob repo userId jobId
  let schedule ← env.requestedSchedule req original.schedule
  let mode ← env.requestedMode req original
  if req.agentConfig.isSome = true ∧
      (original.executionMode = .existing ∨ mode = .existing) then
    throw (.invalidAgentConfig "ongoing conversation jobs must keep their original assistant")
  let agent ← env.requestedAgent req original
  let clearConversationBinding :=
    decide (mode ≠ original.executionMode ∧ mode = .newConversation)
  let edited := env.editedJob times req original schedule mode agent clearConversationBinding
  let released := env.releasedJob clearConversationBinding edited original.conversationId
  env.validateJobWorkspace released.1
  let stored ← repo.updateForUser times.stored userId jobId
    (env.releasedParams clearConversationBinding released.2 released.1 req)
  return (released.1, stored)

end CronEnvironment

end Zaowutai.Cron.Stored
