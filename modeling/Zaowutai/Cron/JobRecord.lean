import Zaowutai.Cron.CronScheduler
import Zaowutai.Lib.LossyText

/-!
# The job and its row

A job is kept as a row whose columns are texts and numbers.  What a row says is
read column by column, and a schedule that is written to its four columns is
read back as it was.
-/

namespace Zaowutai.Cron.Stored

open Zaowutai.Lib

abbrev I64 := { x : ℤ // FitsI64 x }

inductive CronError
  | jobNotFound (id : String)
  | invalidSchedule (reason : String)
  | invalidCronExpression (expr : String)
  | invalidExecutionMode (mode : String)
  | invalidCreatedBy (createdBy : String)
  | invalidJobStatus (status : String)
  | invalidAgentConfig (reason : String)
  | workspacePathUnavailable (path : String)
  | conversation (reason : String)
  | database (reason : String)
  | json (reason : String)
  deriving DecidableEq, Repr

inductive CronSchedule
  | at (atMs : I64) (description : Option String)
  | every (everyMs : I64) (description : Option String)
  | cron (expr : String) (tz : Option String) (description : Option String)
  deriving DecidableEq

def CronSchedule.timing : CronSchedule → Cron.CronSchedule
  | .at atMs _ => .at atMs
  | .every everyMs _ => .every everyMs
  | .cron expr tz _ => .cron expr tz

inductive ExecutionMode
  | existing
  | newConversation
  deriving DecidableEq, Repr

def ExecutionMode.fromStr (s : String) : Except CronError ExecutionMode :=
  if s = "existing" then .ok .existing
  else if s = "new_conversation" then .ok .newConversation
  else .error (.invalidExecutionMode s)

inductive CreatedBy
  | user
  | agent
  deriving DecidableEq, Repr

def CreatedBy.fromStr (s : String) : Except CronError CreatedBy :=
  if s = "user" then .ok .user
  else if s = "agent" then .ok .agent
  else .error (.invalidCreatedBy s)

inductive JobStatus
  | ok
  | error
  | skipped
  | missed
  deriving DecidableEq, Repr

def JobStatus.fromStr (s : String) : Except CronError JobStatus :=
  if s = "ok" then .ok .ok
  else if s = "error" then .ok .error
  else if s = "skipped" then .ok .skipped
  else if s = "missed" then .ok .missed
  else .error (.invalidJobStatus s)

structure ProviderWithModel where
  providerId : String
  model : String
  useModel : Option String
  deriving DecidableEq, Repr

structure CronAgentConfig where
  name : String
  cliPath : Option String
  isPreset : Option Bool
  assistantId : Option String
  customAgentId : Option String
  mode : Option String
  modelId : Option String
  model : Option ProviderWithModel
  configOptions : Option (List (String × String))
  workspace : Option String
  deriving DecidableEq, Repr

structure CronJob where
  id : String
  userId : String
  name : String
  enabled : Bool
  schedule : CronSchedule
  message : String
  executionMode : ExecutionMode
  agentConfig : Option CronAgentConfig
  conversationId : String
  conversationTitle : Option String
  agentType : String
  createdBy : CreatedBy
  skillContent : Option String
  description : Option String
  createdAt : ℤ
  updatedAt : ℤ
  nextRunAt : Option ℤ
  lastRunAt : Option ℤ
  lastStatus : Option JobStatus
  lastError : Option String
  runCount : ℤ
  retryCount : ℤ
  maxRetries : ℤ
  queueEnabled : Bool
  deriving DecidableEq

structure CronJobRow where
  id : String
  userId : String
  name : String
  enabled : Bool
  scheduleKind : String
  scheduleValue : String
  scheduleTz : Option String
  scheduleDescription : Option String
  payloadMessage : String
  executionMode : String
  agentConfig : Option String
  conversationId : String
  conversationTitle : Option String
  createdBy : String
  skillContent : Option String
  description : Option String
  createdAt : ℤ
  updatedAt : ℤ
  nextRunAt : Option ℤ
  lastRunAt : Option ℤ
  lastStatus : Option String
  lastError : Option String
  runCount : ℤ
  retryCount : ℤ
  maxRetries : ℤ
  queueEnabled : Bool
  deriving DecidableEq, Repr

structure AgentConfigJson where
  toString : CronAgentConfig → String
  fromStr : String → Except CronError CronAgentConfig

/-- `str::parse` at the 64-bit integers.  A number is given up at the first digit that leads
outside, before what follows is looked at. -/
def parseI64 (text : String) : Except String I64 :=
  let negative := text.toList.head? = some '-'
  let digits := if negative ∨ text.toList.head? = some '+' then text.toList.tail else text.toList
  let value : ℤ := Nat.ofDigitChars 10 (digits.takeWhile (·.isDigit)) 0
  let signed := if negative then -value else value
  if text.toList = [] then .error "cannot parse integer from empty string"
  else if h : FitsI64 signed then
    if digits ≠ [] ∧ digits.all (·.isDigit) then .ok ⟨signed, h⟩
    else .error "invalid digit found in string"
  else if negative then .error "number too small to fit in target type"
  else .error "number too large to fit in target type"

def parseSchedule (kind value : String) (tz description : Option String) :
    Except CronError CronSchedule :=
  if kind = "at" then
    match parseI64 value with
    | .ok atMs => .ok (.at atMs description)
    | .error e => .error (.invalidSchedule ("invalid at_ms '" ++ value ++ "': " ++ e))
  else if kind = "every" then
    match parseI64 value with
    | .ok everyMs => .ok (.every everyMs description)
    | .error e => .error (.invalidSchedule ("invalid every_ms '" ++ value ++ "': " ++ e))
  else if kind = "cron" then .ok (.cron value tz description)
  else .error (.invalidSchedule ("unknown schedule kind: " ++ kind))

structure ScheduleColumns where
  kind : String
  value : String
  tz : Option String
  description : Option String
  deriving DecidableEq, Repr

def scheduleToRowFields : CronSchedule → ScheduleColumns
  | .at atMs description => ⟨"at", toString atMs.val, none, description⟩
  | .every everyMs description => ⟨"every", toString everyMs.val, none, description⟩
  | .cron expr tz description => ⟨"cron", expr, tz, description⟩

def readColumn {α : Type} (read : String → Except CronError α) :
    Option String → Except CronError (Option α)
  | none => .ok none
  | some text => (read text).map some

def jobOfColumns (row : CronJobRow) (schedule : CronSchedule) (executionMode : ExecutionMode)
    (createdBy : CreatedBy) (agentConfig : Option CronAgentConfig)
    (lastStatus : Option JobStatus) : CronJob where
  id := row.id
  userId := row.userId
  name := row.name
  enabled := row.enabled
  schedule
  message := row.payloadMessage
  executionMode
  agentConfig
  conversationId := row.conversationId
  conversationTitle := row.conversationTitle
  agentType := ""
  createdBy
  skillContent := row.skillContent
  description := row.description
  createdAt := row.createdAt
  updatedAt := row.updatedAt
  nextRunAt := row.nextRunAt
  lastRunAt := row.lastRunAt
  lastStatus
  lastError := row.lastError
  runCount := row.runCount
  retryCount := row.retryCount
  maxRetries := row.maxRetries
  queueEnabled := row.queueEnabled

def cronJobFromRow (json : AgentConfigJson) (row : CronJobRow) : Except CronError CronJob := do
  let schedule ← parseSchedule row.scheduleKind row.scheduleValue row.scheduleTz
    row.scheduleDescription
  let executionMode ← ExecutionMode.fromStr row.executionMode
  let createdBy ← CreatedBy.fromStr row.createdBy
  let agentConfig ← readColumn json.fromStr row.agentConfig
  let lastStatus ← readColumn JobStatus.fromStr row.lastStatus
  return jobOfColumns row schedule executionMode createdBy agentConfig lastStatus

theorem bind_eq_ok {α β : Type} {x : Except CronError α} {f : α → Except CronError β} {b : β} :
    x >>= f = .ok b ↔ ∃ a, x = .ok a ∧ f a = .ok b := by
  cases x with
  | error e => exact ⟨fun h ↦ (by cases h), fun ⟨_, h, _⟩ ↦ (by cases h)⟩
  | ok a =>
      constructor
      · exact fun h ↦ ⟨a, rfl, h⟩
      · rintro ⟨_, ⟨⟩, h⟩
        exact h

structure ReadsAs (json : AgentConfigJson) (row : CronJobRow) (job : CronJob) : Prop where
  schedule : parseSchedule row.scheduleKind row.scheduleValue row.scheduleTz
    row.scheduleDescription = .ok job.schedule
  executionMode : ExecutionMode.fromStr row.executionMode = .ok job.executionMode
  createdBy : CreatedBy.fromStr row.createdBy = .ok job.createdBy
  agentConfig : readColumn json.fromStr row.agentConfig = .ok job.agentConfig
  lastStatus : readColumn JobStatus.fromStr row.lastStatus = .ok job.lastStatus
  rest : { job with agentType := "" } = jobOfColumns row job.schedule job.executionMode
    job.createdBy job.agentConfig job.lastStatus

theorem cronJobFromRow_eq_ok {json : AgentConfigJson} {row : CronJobRow} {job : CronJob} :
    cronJobFromRow json row = .ok { job with agentType := "" } ↔ ReadsAs json row job := by
  rw [cronJobFromRow]
  simp only [bind_eq_ok]
  constructor
  · rintro ⟨schedule, hschedule, mode, hmode, createdBy, hcreatedBy, config, hconfig, status,
      hstatus, hjob⟩
    have hrest := Except.ok.inj hjob
    obtain rfl : schedule = job.schedule := congrArg CronJob.schedule hrest
    obtain rfl : mode = job.executionMode := congrArg CronJob.executionMode hrest
    obtain rfl : createdBy = job.createdBy := congrArg CronJob.createdBy hrest
    obtain rfl : config = job.agentConfig := congrArg CronJob.agentConfig hrest
    obtain rfl : status = job.lastStatus := congrArg CronJob.lastStatus hrest
    exact ⟨hschedule, hmode, hcreatedBy, hconfig, hstatus, hrest.symm⟩
  · intro h
    refine ⟨_, h.schedule, _, h.executionMode, _, h.createdBy, _, h.agentConfig, _, h.lastStatus,
      ?_⟩
    exact congrArg Except.ok h.rest.symm

theorem ReadsAs.job_eq {json : AgentConfigJson} {row : CronJobRow} {job : CronJob}
    (h : ReadsAs json row job) :
    ∃ schedule mode createdBy config status agentType,
      job = { jobOfColumns row schedule mode createdBy config status with agentType } := by
  refine ⟨job.schedule, job.executionMode, job.createdBy, job.agentConfig, job.lastStatus,
    job.agentType, ?_⟩
  rw [← h.rest]

theorem agentType_of_cronJobFromRow {json : AgentConfigJson} {row : CronJobRow} {job : CronJob}
    (h : cronJobFromRow json row = .ok job) : job.agentType = "" := by
  rw [cronJobFromRow] at h
  simp only [bind_eq_ok] at h
  obtain ⟨_, _, _, _, _, _, _, _, _, _, h⟩ := h
  rw [← Except.ok.inj h]
  rfl

theorem parseI64_of_toList {text : String} {x : I64} {n : ℕ}
    (h : text.toList = Nat.toDigits 10 n ∧ x.val = n ∨
      text.toList = '-' :: Nat.toDigits 10 n ∧ x.val = -n) : parseI64 text = .ok x := by
  have hdigits : ∀ c ∈ Nat.toDigits 10 n, c.isDigit = true := fun c hc ↦
    Nat.isDigit_of_mem_toDigits (by decide) (by decide) hc
  have hne : Nat.toDigits 10 n ≠ [] := Nat.toDigits_ne_nil
  have htake : (Nat.toDigits 10 n).takeWhile (·.isDigit) = Nat.toDigits 10 n :=
    List.takeWhile_eq_self_iff.mpr hdigits
  have hsign : ∀ c : Char, c.isDigit = false → (Nat.toDigits 10 n).head? ≠ some c := by
    intro c hc hhead
    have hdigit := hdigits c (List.mem_of_mem_head? hhead)
    rw [hc] at hdigit
    cases hdigit
  obtain ⟨x, hfits⟩ := x
  obtain ⟨hlist, hx⟩ | ⟨hlist, hx⟩ := h
  · obtain rfl : x = n := hx
    have hminus := hsign '-' (by decide)
    have hplus := hsign '+' (by decide)
    simpa [parseI64, hlist, hminus, hplus, htake, hne, Nat.ofDigitChars_ten_toDigits, hfits]
      using hdigits
  · obtain rfl : x = -n := hx
    simpa [parseI64, hlist, htake, hne, Nat.ofDigitChars_ten_toDigits, hfits] using hdigits

/-- A number is read back from its decimal digits. -/
theorem parseI64_toString (x : I64) : parseI64 (toString x.val) = .ok x := by
  obtain ⟨x, hfits⟩ := x
  cases x with
  | ofNat n =>
      refine parseI64_of_toList (n := n) (Or.inl ⟨?_, rfl⟩)
      exact Nat.toList_repr
  | negSucc n =>
      refine parseI64_of_toList (n := n + 1) (Or.inr ⟨?_, rfl⟩)
      change ("-" ++ Nat.repr (n + 1)).toList = _
      rw [String.toList_append, Nat.toList_repr]
      rfl

theorem parseSchedule_rowFields (schedule : CronSchedule) :
    parseSchedule (scheduleToRowFields schedule).kind (scheduleToRowFields schedule).value
        (scheduleToRowFields schedule).tz (scheduleToRowFields schedule).description =
      .ok schedule := by
  cases schedule with
  | «at» atMs description =>
      dsimp only [scheduleToRowFields]
      rw [parseSchedule, if_pos rfl, parseI64_toString]
  | every everyMs description =>
      dsimp only [scheduleToRowFields]
      rw [parseSchedule, if_neg (by decide), if_pos rfl, parseI64_toString]
  | cron expr tz description =>
      dsimp only [scheduleToRowFields]
      rw [parseSchedule, if_neg (by decide), if_neg (by decide), if_pos rfl]

end Zaowutai.Cron.Stored
