import Zaowutai.Lib.Run
import Zaowutai.Lib.Table
import Zaowutai.Acp.ConfigOptionCatalog

/-!
# The session of a CLI

A session keeps what the user wants, what the CLI last reported and what the
CLI offers.  A mode or a model is reported by itself, with its catalog, or as
one of the config options; `plan_reconcile` compares what is wanted with what
was reported.
-/

namespace Zaowutai.Acp

open Zaowutai.Lib

abbrev ModeId := String

abbrev ModelId := String

abbrev ConfigKey := String

abbrev ConfigValue := String

structure PendingStartupConfigSeed where
  category : SessionConfigOptionCategory
  value : ConfigValue
  deriving DecidableEq, Repr

inductive PendingStartupConfigSeedResult
  | applied (category : SessionConfigOptionCategory) (optionId : ConfigKey)
  | optionNotAdvertised (category : SessionConfigOptionCategory)
  | valueNotSelectable (category : SessionConfigOptionCategory)
  deriving DecidableEq, Repr

structure Desired where
  modeId : Option ModeId
  modelId : Option ModelId
  configSelections : Table ConfigKey ConfigValue
  pendingStartupConfig : List PendingStartupConfigSeed

structure Observed where
  modeId : Option ModeId
  modelId : Option ModelId
  configCurrent : Table ConfigKey ConfigValue

structure Advertised where
  modes : Option SessionModeState
  models : Option LegacySessionModelState
  configOptions : Option (List SessionConfigOption)

inductive AcpSessionEvent
  | desiredModeChanged (mode : ModeId)
  | desiredModelChanged (model : ModelId)
  | desiredConfigChanged (selections : Table ConfigKey ConfigValue)
  | observedModeSynced (mode : ModeId)
  | observedModelSynced (model : ModelId)
  | observedConfigSynced (selections : Table ConfigKey ConfigValue)

structure AcpSession where
  desired : Desired
  observed : Observed
  advertised : Advertised
  pendingEvents : List AcpSessionEvent

inductive ReconcileAction
  | setMode (mode : ModeId)
  | setModel (model : ModelId)
  | setConfigOption (key : ConfigKey) (value : ConfigValue)
  deriving DecidableEq, Repr

/-- The user choices of an earlier session, as the database has them. -/
structure PersistedSessionState where
  currentModeId : Option ModeId
  currentModelId : Option ModelId
  configSelections : Table ConfigKey ConfigValue

def configOptionAliasesForCategory : SessionConfigOptionCategory → List String
  | .mode => ["mode", "modes"]
  | .model => ["model", "models"]
  | .thoughtLevel => ["thought_level", "reasoning_effort", "effort", "thinking_budget", "thinking"]
  | .other _ => []

def selectOptionForStartupSeed (options : List SessionConfigOption)
    (category : SessionConfigOptionCategory) : Option SessionConfigOption :=
  options.find? (·.category = some category) <|>
    options.find? (·.id ∈ configOptionAliasesForCategory category)

namespace AcpSession

def new (initialMode : Option ModeId) (initialModel : Option ModelId)
    (configSelections : Table ConfigKey ConfigValue) : AcpSession where
  desired := ⟨initialMode, initialModel, configSelections, []⟩
  observed := ⟨none, none, ∅⟩
  advertised := ⟨none, none, none⟩
  pendingEvents := []

variable (s : AcpSession)

def emit (changed : Bool) (event : AcpSessionEvent) : AcpSession :=
  if changed then { s with pendingEvents := s.pendingEvents ++ [event] } else s

def isModeValid (mode : ModeId) : Bool :=
  match s.advertised.modes with
  | none => true
  | some modes => modes.availableModes.isEmpty || modes.availableModes.any (·.id = mode)

def isModelValid (model : ModelId) : Bool :=
  match s.advertised.models with
  | none => true
  | some models => models.availableModels.isEmpty || models.availableModels.any (·.id = model)

def setDesiredMode (mode : ModeId) : AcpSession × Bool :=
  if mode.isEmpty || !s.isModeValid mode || s.desired.modeId = some mode then (s, false)
  else
    (emit { s with desired := { s.desired with modeId := some mode } } true
      (.desiredModeChanged mode), true)

def setDesiredModel (model : ModelId) : AcpSession × Bool :=
  if model.isEmpty || !s.isModelValid model || s.desired.modelId = some model then (s, false)
  else
    (emit { s with desired := { s.desired with modelId := some model } } true
      (.desiredModelChanged model), true)

def clearInvalidDesiredModel : AcpSession × Option ModelId :=
  match s.desired.modelId with
  | none => (s, none)
  | some model =>
      if s.isModelValid model then (s, none)
      else ({ s with desired := { s.desired with modelId := none } }, some model)

def clearInvalidDesiredMode : AcpSession × Option ModeId :=
  match s.desired.modeId with
  | none => (s, none)
  | some mode =>
      if s.isModeValid mode then (s, none)
      else ({ s with desired := { s.desired with modeId := none } }, some mode)

def setDesiredConfig (key : ConfigKey) (value : ConfigValue) : AcpSession :=
  let selections := s.desired.configSelections.insert key value
  emit { s with desired := { s.desired with configSelections := selections } }
    (s.desired.configSelections.lookup key ≠ some value) (.desiredConfigChanged selections)

def seedPendingStartupConfig (category : SessionConfigOptionCategory) (value : ConfigValue) :
    AcpSession :=
  if value.isEmpty || s.desired.pendingStartupConfig.contains ⟨category, value⟩ then s
  else
    { s with desired := { s.desired with
        pendingStartupConfig := s.desired.pendingStartupConfig ++ [⟨category, value⟩] } }

def clearLegacyDesiredForConfigCategory : SessionConfigOptionCategory → AcpSession
  | .mode => { s with desired := { s.desired with modeId := none } }
  | .model => { s with desired := { s.desired with modelId := none } }
  | .thoughtLevel | .other _ => s

def handleUnresolvedStartupConfigSeed (seed : PendingStartupConfigSeed)
    (optionWasAdvertised : Bool) : AcpSession :=
  match seed.category with
  | .mode | .model =>
      if optionWasAdvertised then s.clearLegacyDesiredForConfigCategory seed.category else s
  | .thoughtLevel =>
      if optionWasAdvertised then s else s.seedPendingStartupConfig seed.category seed.value
  | .other _ => s

def resolveStartupConfigSeed (modeNormalizer : String → List String → String)
    (seed : PendingStartupConfigSeed) : AcpSession × PendingStartupConfigSeedResult :=
  match s.advertised.configOptions.bind (selectOptionForStartupSeed · seed.category) with
  | none =>
      (s.handleUnresolvedStartupConfigSeed seed false, .optionNotAdvertised seed.category)
  | some option =>
      let resolvedValue :=
        if seed.category = .mode then modeNormalizer seed.value option.kind.values else seed.value
      if option.kind.values.contains resolvedValue then
        ((s.clearLegacyDesiredForConfigCategory seed.category).setDesiredConfig option.id
          resolvedValue, .applied seed.category option.id)
      else (s.handleUnresolvedStartupConfigSeed seed true, .valueNotSelectable seed.category)

def resolvePendingStartupConfigSeedsWithModeNormalizer
    (modeNormalizer : String → List String → String) :
    AcpSession × List PendingStartupConfigSeedResult :=
  s.desired.pendingStartupConfig.foldl
    (fun resolved seed ↦
      let next := resolved.1.resolveStartupConfigSeed modeNormalizer seed
      (next.1, resolved.2 ++ [next.2]))
    ({ s with desired := { s.desired with pendingStartupConfig := [] } }, [])

def recordMode (modes : SessionModeState) : AcpSession :=
  emit
    { s with
      observed := { s.observed with modeId := some modes.currentModeId }
      advertised := { s.advertised with modes := some modes } }
    (s.observed.modeId ≠ some modes.currentModeId) (.observedModeSynced modes.currentModeId)

def recordModel (models : LegacySessionModelState) : AcpSession :=
  emit
    { s with
      observed := { s.observed with modelId := some models.currentModelId }
      advertised := { s.advertised with models := some models } }
    (s.observed.modelId ≠ some models.currentModelId) (.observedModelSynced models.currentModelId)

def knownModes : List CatalogEntry := (s.advertised.modes.map (·.availableModes)).getD []

def knownModels : List CatalogEntry := (s.advertised.models.map (·.availableModels)).getD []

def applyObservedMode (mode : ModeId) : AcpSession := s.recordMode ⟨mode, s.knownModes⟩

def applyObservedModel (model : ModelId) : AcpSession := s.recordModel ⟨model, s.knownModels⟩

def confirmMode (mode : ModeId) : AcpSession :=
  applyObservedMode { s with desired := { s.desired with modeId := some mode } } mode

def confirmModel (model : ModelId) : AcpSession :=
  applyObservedModel { s with desired := { s.desired with modelId := some model } } model

def applyObservedConfig (key : ConfigKey) (value : ConfigValue) : AcpSession :=
  let current := s.observed.configCurrent.insert key value
  emit { s with observed := { s.observed with configCurrent := current } }
    (s.observed.configCurrent.lookup key ≠ some value) (.observedConfigSynced current)

def preserveExistingModeCatalogIfEmpty (modes : SessionModeState) : SessionModeState :=
  if modes.availableModes.isEmpty then { modes with availableModes := s.knownModes } else modes

def preserveExistingModelCatalogIfEmpty (models : LegacySessionModelState) :
    LegacySessionModelState :=
  if models.availableModels.isEmpty then { models with availableModels := s.knownModels }
  else models

def applyAdvertisedModes (modes : SessionModeState) : AcpSession :=
  s.recordMode (s.preserveExistingModeCatalogIfEmpty modes)

def applyAdvertisedModels (models : LegacySessionModelState) : AcpSession :=
  s.recordModel (s.preserveExistingModelCatalogIfEmpty models)

def preserveDesiredModelInCatalog (models : LegacySessionModelState) : LegacySessionModelState :=
  match s.desired.modelId with
  | none => models
  | some desired =>
      if models.currentModelId ≠ desired ∧ models.availableModels.any (·.id = desired) = true then
        { models with currentModelId := desired }
      else models

def observeConfigOption (observed : Table ConfigKey ConfigValue × Bool)
    (option : SessionConfigOption) : Table ConfigKey ConfigValue × Bool :=
  match option.kind.currentValue? with
  | none => observed
  | some value =>
      (observed.1.insert option.id value,
        observed.2 || observed.1.lookup option.id ≠ some value)

def observeConfigOptions (options : List SessionConfigOption) : AcpSession :=
  let observed := options.foldl observeConfigOption (s.observed.configCurrent, false)
  emit
    { s with
      observed := { s.observed with configCurrent := observed.1 }
      advertised := { s.advertised with configOptions := some options } }
    observed.2 (.observedConfigSynced observed.1)

def applyDerivedModes (options : List SessionConfigOption) : AcpSession :=
  match deriveModesFromConfigOptions options with
  | none => s
  | some modes => s.applyAdvertisedModes modes

def applyDerivedModels (options : List SessionConfigOption) : AcpSession :=
  match deriveModelsFromConfigOptions options with
  | none => s
  | some models => s.applyAdvertisedModels (s.preserveDesiredModelInCatalog models)

def applyAdvertisedConfigOptions (update : List SessionConfigOption) : AcpSession :=
  let options := mergeConfigOptions s.advertised.configOptions update
  ((s.applyDerivedModes options).applyDerivedModels options).observeConfigOptions options

/-- Called on resume, before the CLI answers. -/
def preloadPersisted (state : PersistedSessionState) : AcpSession where
  desired := s.desired
  observed :=
    { modeId := state.currentModeId <|> s.observed.modeId
      modelId := state.currentModelId <|> s.observed.modelId
      configCurrent :=
        if state.configSelections.entries.isEmpty then s.observed.configCurrent
        else state.configSelections }
  advertised :=
    { s.advertised with
      modes := (state.currentModeId.map fun mode ↦ ⟨mode, s.knownModes⟩) <|> s.advertised.modes
      models :=
        (state.currentModelId.map fun model ↦ ⟨model, s.knownModels⟩) <|> s.advertised.models }
  pendingEvents := s.pendingEvents

def planReconcile : List ReconcileAction :=
  (s.desired.modeId.filter (s.observed.modeId ≠ some ·)).toList.map .setMode ++
    (s.desired.modelId.filter (s.observed.modelId ≠ some ·)).toList.map .setModel ++
      (s.desired.configSelections.entries.filter fun selection ↦
        s.observed.configCurrent.lookup selection.1 ≠ some selection.2).map fun selection ↦
          .setConfigOption selection.1 selection.2

end AcpSession

inductive SessionOp
  | setDesiredMode (mode : ModeId)
  | setDesiredModel (model : ModelId)
  | setDesiredConfig (key : ConfigKey) (value : ConfigValue)
  | confirmMode (mode : ModeId)
  | confirmModel (model : ModelId)
  | seedPendingStartupConfig (category : SessionConfigOptionCategory) (value : ConfigValue)
  | resolvePendingStartupConfigSeeds (modeNormalizer : String → List String → String)
  | applyObservedMode (mode : ModeId)
  | applyObservedModel (model : ModelId)
  | applyObservedConfig (key : ConfigKey) (value : ConfigValue)
  | applyAdvertisedModes (modes : SessionModeState)
  | applyAdvertisedModels (models : LegacySessionModelState)
  | applyAdvertisedConfigOptions (update : List SessionConfigOption)
  | clearInvalidDesiredMode
  | clearInvalidDesiredModel

namespace AcpSession

def step (s : AcpSession) : SessionOp → AcpSession
  | .setDesiredMode mode => (s.setDesiredMode mode).1
  | .setDesiredModel model => (s.setDesiredModel model).1
  | .setDesiredConfig key value => s.setDesiredConfig key value
  | .confirmMode mode => s.confirmMode mode
  | .confirmModel model => s.confirmModel model
  | .seedPendingStartupConfig category value => s.seedPendingStartupConfig category value
  | .resolvePendingStartupConfigSeeds modeNormalizer =>
      (s.resolvePendingStartupConfigSeedsWithModeNormalizer modeNormalizer).1
  | .applyObservedMode mode => s.applyObservedMode mode
  | .applyObservedModel model => s.applyObservedModel model
  | .applyObservedConfig key value => s.applyObservedConfig key value
  | .applyAdvertisedModes modes => s.applyAdvertisedModes modes
  | .applyAdvertisedModels models => s.applyAdvertisedModels models
  | .applyAdvertisedConfigOptions update => s.applyAdvertisedConfigOptions update
  | .clearInvalidDesiredMode => s.clearInvalidDesiredMode.1
  | .clearInvalidDesiredModel => s.clearInvalidDesiredModel.1

end AcpSession

end Zaowutai.Acp
