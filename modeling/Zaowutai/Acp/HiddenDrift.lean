import Zaowutai.Acp.AcpSession

/-!
# Drift between what is wanted and what was reported

Beside the session, what the CLI last reported is kept.  An update of the
config options speaks for itself where the mode and the model read off the
merged list are its own, or the ones recorded already; the session then holds
the last report.  Only a report that lags behind the model the session holds
is passed over.
-/

namespace Zaowutai.Acp

open Zaowutai.Lib

/-- The mode the CLI reports with an operation.  A select option reports its value, or its first
entry if the value is empty, and nothing if it has no entry. -/
def SessionOp.modeReport : SessionOp → Option ModeId
  | .applyObservedMode mode | .confirmMode mode => some mode
  | .applyAdvertisedModes modes => some modes.currentModeId
  | .applyAdvertisedConfigOptions update =>
      (deriveModesFromConfigOptions update).map (·.currentModeId)
  | .setDesiredMode _ | .setDesiredModel _ | .setDesiredConfig _ _ | .confirmModel _
  | .seedPendingStartupConfig _ _ | .resolvePendingStartupConfigSeeds _ | .applyObservedModel _
  | .applyObservedConfig _ _ | .applyAdvertisedModels _ | .clearInvalidDesiredMode
  | .clearInvalidDesiredModel => none

def SessionOp.modelReport : SessionOp → Option ModelId
  | .applyObservedModel model | .confirmModel model => some model
  | .applyAdvertisedModels models => some models.currentModelId
  | .applyAdvertisedConfigOptions update =>
      (deriveModelsFromConfigOptions update).map (·.currentModelId)
  | .setDesiredMode _ | .setDesiredModel _ | .setDesiredConfig _ _ | .confirmMode _
  | .seedPendingStartupConfig _ _ | .resolvePendingStartupConfigSeeds _ | .applyObservedMode _
  | .applyObservedConfig _ _ | .applyAdvertisedModes _ | .clearInvalidDesiredMode
  | .clearInvalidDesiredModel => none

namespace AcpSession

variable (s : AcpSession)

/-- The update shows another model than the desired one, which it offers and the session holds. -/
def Lags (models : LegacySessionModelState) : Prop :=
  s.desired.modelId = s.observed.modelId ∧ s.preserveDesiredModelInCatalog models ≠ models

instance (models : LegacySessionModelState) : Decidable (s.Lags models) :=
  inferInstanceAs (Decidable (_ ∧ _))

def modelReport : SessionOp → Option ModelId
  | .applyAdvertisedConfigOptions update =>
      ((deriveModelsFromConfigOptions update).filter fun models ↦ ¬s.Lags models).map
        (·.currentModelId)
  | op => op.modelReport

structure SpeaksForItself (update : List SessionConfigOption) : Prop where
  distinct : DistinctIds update
  modes : deriveModesFromConfigOptions (mergeConfigOptions s.advertised.configOptions update) =
      deriveModesFromConfigOptions update ∨
    deriveModesFromConfigOptions update = none ∧
      (deriveModesFromConfigOptions (mergeConfigOptions s.advertised.configOptions update)).all
        (fun modes ↦ s.observed.modeId = some modes.currentModeId) = true
  models : deriveModelsFromConfigOptions (mergeConfigOptions s.advertised.configOptions update) =
      deriveModelsFromConfigOptions update ∨
    deriveModelsFromConfigOptions update = none ∧
      (deriveModelsFromConfigOptions (mergeConfigOptions s.advertised.configOptions update)).all
        (fun models ↦ s.observed.modelId =
          some (s.preserveDesiredModelInCatalog models).currentModelId) = true
  held : (deriveModelsFromConfigOptions update).all
    (fun models ↦ s.preserveDesiredModelInCatalog models ≠ models →
      s.desired.modelId = s.observed.modelId) = true

instance (update : List SessionConfigOption) : Decidable (s.SpeaksForItself update) :=
  decidable_of_iff (_ ∧ _ ∧ _ ∧ _)
    ⟨fun ⟨h, hmodes, hmodels, hheld⟩ ↦ ⟨h, hmodes, hmodels, hheld⟩,
      fun h ↦ ⟨h.distinct, h.modes, h.models, h.held⟩⟩

section Record

variable {s} (changed : Bool) (event : AcpSessionEvent)

@[simp] theorem emit_desired : (s.emit changed event).desired = s.desired := by
  cases changed <;> rfl

@[simp] theorem emit_observed : (s.emit changed event).observed = s.observed := by
  cases changed <;> rfl

@[simp] theorem emit_advertised : (s.emit changed event).advertised = s.advertised := by
  cases changed <;> rfl

def SameReports (s t : AcpSession) : Prop :=
  t.observed = s.observed ∧ t.advertised = s.advertised

theorem SameReports.trans {s t u : AcpSession} (h : SameReports s t) (h' : SameReports t u) :
    SameReports s u :=
  ⟨h'.1.trans h.1, h'.2.trans h.2⟩

theorem sameReports_setDesiredConfig (key : ConfigKey) (value : ConfigValue) :
    SameReports s (s.setDesiredConfig key value) :=
  ⟨emit_observed _ _, emit_advertised _ _⟩

theorem sameReports_seedPendingStartupConfig (category : SessionConfigOptionCategory)
    (value : ConfigValue) : SameReports s (s.seedPendingStartupConfig category value) := by
  rw [seedPendingStartupConfig]
  split <;> exact ⟨rfl, rfl⟩

theorem sameReports_clearLegacyDesired (category : SessionConfigOptionCategory) :
    SameReports s (s.clearLegacyDesiredForConfigCategory category) := by
  cases category <;> exact ⟨rfl, rfl⟩

theorem sameReports_handleUnresolved (seed : PendingStartupConfigSeed) (advertised : Bool) :
    SameReports s (s.handleUnresolvedStartupConfigSeed seed advertised) := by
  obtain ⟨category, value⟩ := seed
  cases category with
  | mode | model => cases advertised <;> exact ⟨rfl, rfl⟩
  | other name => exact ⟨rfl, rfl⟩
  | thoughtLevel =>
      cases advertised with
      | true => exact ⟨rfl, rfl⟩
      | false => exact sameReports_seedPendingStartupConfig .thoughtLevel value

theorem sameReports_resolveStartupConfigSeed (modeNormalizer : String → List String → String)
    (seed : PendingStartupConfigSeed) :
    SameReports s (s.resolveStartupConfigSeed modeNormalizer seed).1 := by
  rw [resolveStartupConfigSeed]
  split
  · exact sameReports_handleUnresolved seed false
  · generalize (if seed.category = .mode then _ else _) = resolvedValue
    dsimp only
    split
    · exact (sameReports_clearLegacyDesired _).trans (sameReports_setDesiredConfig _ _)
    · exact sameReports_handleUnresolved seed true

theorem sameReports_resolvePendingStartupConfigSeeds
    (modeNormalizer : String → List String → String) :
    SameReports s (s.resolvePendingStartupConfigSeedsWithModeNormalizer modeNormalizer).1 := by
  rw [resolvePendingStartupConfigSeedsWithModeNormalizer]
  suffices hfold : ∀ (seeds : List PendingStartupConfigSeed)
      (resolved : AcpSession × List PendingStartupConfigSeedResult),
      SameReports s resolved.1 →
        SameReports s (seeds.foldl
          (fun resolved seed ↦
            ((resolved.1.resolveStartupConfigSeed modeNormalizer seed).1,
              resolved.2 ++ [(resolved.1.resolveStartupConfigSeed modeNormalizer seed).2]))
          resolved).1 from
    hfold _ _ ⟨rfl, rfl⟩
  intro seeds
  induction seeds with
  | nil => exact fun _ h ↦ h
  | cons seed seeds ih =>
      exact fun resolved h ↦ ih _ (h.trans (sameReports_resolveStartupConfigSeed _ seed))

def recordedMode (s : AcpSession) : SessionOp → Option ModeId
  | .applyAdvertisedConfigOptions update =>
      (deriveModesFromConfigOptions (mergeConfigOptions s.advertised.configOptions update)).map
        (·.currentModeId)
  | op => op.modeReport

def recordedModel (s : AcpSession) : SessionOp → Option ModelId
  | .applyAdvertisedConfigOptions update =>
      (deriveModelsFromConfigOptions (mergeConfigOptions s.advertised.configOptions update)).map
        fun models ↦ (s.preserveDesiredModelInCatalog models).currentModelId
  | op => op.modelReport

def keptOptions (s : AcpSession) : SessionOp → Option (List SessionConfigOption)
  | .applyAdvertisedConfigOptions update =>
      some (mergeConfigOptions s.advertised.configOptions update)
  | _ => s.advertised.configOptions

theorem preserveExistingModeCatalog_current (modes : SessionModeState) :
    (s.preserveExistingModeCatalogIfEmpty modes).currentModeId = modes.currentModeId := by
  rw [preserveExistingModeCatalogIfEmpty]
  split <;> rfl

theorem preserveExistingModelCatalog_current (models : LegacySessionModelState) :
    (s.preserveExistingModelCatalogIfEmpty models).currentModelId = models.currentModelId := by
  rw [preserveExistingModelCatalogIfEmpty]
  split <;> rfl

theorem applyDerivedModes_spec (options : List SessionConfigOption) :
    (s.applyDerivedModes options).desired = s.desired ∧
      (s.applyDerivedModes options).observed =
        { s.observed with
          modeId := ((deriveModesFromConfigOptions options).map (·.currentModeId)).or
            s.observed.modeId } := by
  rw [applyDerivedModes]
  cases deriveModesFromConfigOptions options with
  | none => exact ⟨rfl, rfl⟩
  | some modes =>
      simp [applyAdvertisedModes, recordMode, preserveExistingModeCatalog_current]

theorem applyDerivedModels_spec (options : List SessionConfigOption) :
    (s.applyDerivedModels options).observed =
      { s.observed with
        modelId := ((deriveModelsFromConfigOptions options).map fun models ↦
          (s.preserveDesiredModelInCatalog models).currentModelId).or s.observed.modelId } := by
  rw [applyDerivedModels]
  cases deriveModelsFromConfigOptions options with
  | none => rfl
  | some models =>
      simp [applyAdvertisedModels, recordModel, preserveExistingModelCatalog_current]

theorem observeConfigOptions_spec (options : List SessionConfigOption) :
    (s.observeConfigOptions options).observed =
        { s.observed with
          configCurrent := (options.foldl observeConfigOption (s.observed.configCurrent, false)).1 } ∧
      (s.observeConfigOptions options).advertised.configOptions = some options := by
  simp [observeConfigOptions]

theorem applyAdvertisedConfigOptions_spec (update : List SessionConfigOption) :
    (s.applyAdvertisedConfigOptions update).observed =
        { modeId := (s.recordedMode (.applyAdvertisedConfigOptions update)).or s.observed.modeId
          modelId := (s.recordedModel (.applyAdvertisedConfigOptions update)).or s.observed.modelId
          configCurrent :=
            ((mergeConfigOptions s.advertised.configOptions update).foldl observeConfigOption
              (s.observed.configCurrent, false)).1 } ∧
      (s.applyAdvertisedConfigOptions update).advertised.configOptions =
        s.keptOptions (.applyAdvertisedConfigOptions update) := by
  let options := mergeConfigOptions s.advertised.configOptions update
  obtain ⟨hdesired, hmode⟩ := s.applyDerivedModes_spec options
  have hpreserve : (s.applyDerivedModes options).preserveDesiredModelInCatalog =
      s.preserveDesiredModelInCatalog := by
    funext models
    rw [preserveDesiredModelInCatalog, hdesired]
    rfl
  have hmodel := (s.applyDerivedModes options).applyDerivedModels_spec options
  rw [hpreserve, hmode] at hmodel
  obtain ⟨hobserved, hkept⟩ :=
    ((s.applyDerivedModes options).applyDerivedModels options).observeConfigOptions_spec options
  rw [hmodel] at hobserved
  exact ⟨hobserved, hkept⟩

end Record

end AcpSession

def SessionOp.isWish : SessionOp → Bool
  | .setDesiredMode _ | .setDesiredModel _ | .setDesiredConfig _ _
  | .seedPendingStartupConfig _ _ | .resolvePendingStartupConfigSeeds _
  | .clearInvalidDesiredMode | .clearInvalidDesiredModel => true
  | .confirmMode _ | .confirmModel _ | .applyObservedMode _ | .applyObservedModel _
  | .applyObservedConfig _ _ | .applyAdvertisedModes _ | .applyAdvertisedModels _
  | .applyAdvertisedConfigOptions _ => false

namespace AcpSession

section Step

variable {s : AcpSession}

theorem sameReports_step {op : SessionOp} (hwish : op.isWish = true) :
    SameReports s (s.step op) := by
  cases op with
  | setDesiredMode mode =>
      rw [step, setDesiredMode]
      split
      · exact ⟨rfl, rfl⟩
      · exact ⟨emit_observed _ _, emit_advertised _ _⟩
  | setDesiredModel model =>
      rw [step, setDesiredModel]
      split
      · exact ⟨rfl, rfl⟩
      · exact ⟨emit_observed _ _, emit_advertised _ _⟩
  | setDesiredConfig key value => exact sameReports_setDesiredConfig key value
  | seedPendingStartupConfig category value => exact sameReports_seedPendingStartupConfig _ _
  | resolvePendingStartupConfigSeeds modeNormalizer =>
      exact sameReports_resolvePendingStartupConfigSeeds modeNormalizer
  | clearInvalidDesiredMode =>
      simp only [step, clearInvalidDesiredMode]
      split
      · exact ⟨rfl, rfl⟩
      · split <;> exact ⟨rfl, rfl⟩
  | clearInvalidDesiredModel =>
      simp only [step, clearInvalidDesiredModel]
      split
      · exact ⟨rfl, rfl⟩
      · split <;> exact ⟨rfl, rfl⟩
  | confirmMode _ | confirmModel _ | applyObservedMode _ | applyObservedModel _
  | applyObservedConfig _ _ | applyAdvertisedModes _ | applyAdvertisedModels _
  | applyAdvertisedConfigOptions _ => cases hwish

theorem records_none {op : SessionOp} (hwish : op.isWish = true) :
    s.recordedMode op = none ∧ s.recordedModel op = none ∧
      s.keptOptions op = s.advertised.configOptions := by
  cases op with
  | setDesiredMode _ | setDesiredModel _ | setDesiredConfig _ _ | seedPendingStartupConfig _ _
  | resolvePendingStartupConfigSeeds _ | clearInvalidDesiredMode | clearInvalidDesiredModel =>
      exact ⟨rfl, rfl, rfl⟩
  | confirmMode _ | confirmModel _ | applyObservedMode _ | applyObservedModel _
  | applyObservedConfig _ _ | applyAdvertisedModes _ | applyAdvertisedModels _
  | applyAdvertisedConfigOptions _ => cases hwish

theorem reports_step (op : SessionOp) :
    (s.step op).observed.modeId = (s.recordedMode op).or s.observed.modeId ∧
      (s.step op).observed.modelId = (s.recordedModel op).or s.observed.modelId ∧
      (s.step op).advertised.configOptions = s.keptOptions op := by
  cases hwish : op.isWish with
  | true =>
      obtain ⟨hobserved, hadvertised⟩ := sameReports_step hwish
      obtain ⟨hmode, hmodel, hoptions⟩ := records_none (s := s) hwish
      rw [hobserved, hadvertised, hmode, hmodel, hoptions, Option.none_or, Option.none_or]
      exact ⟨rfl, rfl, rfl⟩
  | false =>
      cases op with
      | applyAdvertisedConfigOptions update =>
          obtain ⟨hobserved, hadvertised⟩ := s.applyAdvertisedConfigOptions_spec update
          exact ⟨congrArg Observed.modeId hobserved, congrArg Observed.modelId hobserved,
            hadvertised⟩
      | confirmMode _ | confirmModel _ | applyObservedMode _ | applyObservedModel _
      | applyObservedConfig _ _ | applyAdvertisedModes _ | applyAdvertisedModels _ =>
          simp [step, confirmMode, confirmModel, applyObservedMode, applyObservedModel,
            applyObservedConfig, applyAdvertisedModes, applyAdvertisedModels, recordMode,
            recordModel, recordedMode, recordedModel, keptOptions, SessionOp.modeReport,
            SessionOp.modelReport, preserveExistingModeCatalog_current,
            preserveExistingModelCatalog_current]
      | _ => cases hwish

end Step

section Speaks

variable {s : AcpSession} {update : List SessionConfigOption}

theorem SpeaksForItself.recordedMode (h : s.SpeaksForItself update) :
    (s.recordedMode (.applyAdvertisedConfigOptions update)).or s.observed.modeId =
      (SessionOp.modeReport (.applyAdvertisedConfigOptions update)).or s.observed.modeId := by
  obtain hown | ⟨hnone, hheld⟩ := h.modes
  · simp only [AcpSession.recordedMode, SessionOp.modeReport, hown]
  · simp only [AcpSession.recordedMode, SessionOp.modeReport, hnone]
    cases hmerged : deriveModesFromConfigOptions
        (mergeConfigOptions s.advertised.configOptions update) with
    | none => rfl
    | some modes =>
        rw [hmerged, Option.all_some, decide_eq_true_eq] at hheld
        exact hheld.symm

theorem preserveDesiredModel_of_ne {models : LegacySessionModelState}
    (hne : s.preserveDesiredModelInCatalog models ≠ models) :
    s.desired.modelId = some (s.preserveDesiredModelInCatalog models).currentModelId := by
  rw [preserveDesiredModelInCatalog] at hne ⊢
  cases hdesired : s.desired.modelId with
  | none =>
      rw [hdesired] at hne
      exact absurd rfl hne
  | some desired =>
      rw [hdesired] at hne
      dsimp only at hne ⊢
      split
      · rfl
      · next hkeep => exact absurd (if_neg hkeep) hne

theorem SpeaksForItself.recordedModel (h : s.SpeaksForItself update) :
    (s.recordedModel (.applyAdvertisedConfigOptions update)).or s.observed.modelId =
      (s.modelReport (.applyAdvertisedConfigOptions update)).or s.observed.modelId := by
  obtain hown | ⟨hnone, hheld⟩ := h.models
  · have hkept := h.held
    simp only [AcpSession.recordedModel, AcpSession.modelReport, hown]
    cases hreport : deriveModelsFromConfigOptions update with
    | none => rfl
    | some models =>
        rw [hreport, Option.all_some, decide_eq_true_eq] at hkept
        by_cases hsame : s.preserveDesiredModelInCatalog models = models
        · simp [Option.filter, Lags, hsame]
        · have hobserved := (hkept hsame).symm.trans (preserveDesiredModel_of_ne hsame)
          simp [Option.filter, Lags, hsame, hkept hsame, hobserved]
  · simp only [AcpSession.recordedModel, AcpSession.modelReport, hnone]
    cases hmerged : deriveModelsFromConfigOptions
        (mergeConfigOptions s.advertised.configOptions update) with
    | none => rfl
    | some models =>
        rw [hmerged, Option.all_some, decide_eq_true_eq] at hheld
        exact hheld.symm

end Speaks

section Reconcile

variable (s : AcpSession)

theorem setMode_mem_planReconcile (mode : ModeId) :
    .setMode mode ∈ s.planReconcile ↔
      s.desired.modeId = some mode ∧ s.observed.modeId ≠ some mode := by
  simp [planReconcile, Option.filter_eq_some_iff]

theorem setModel_mem_planReconcile (model : ModelId) :
    .setModel model ∈ s.planReconcile ↔
      s.desired.modelId = some model ∧ s.observed.modelId ≠ some model := by
  simp [planReconcile, Option.filter_eq_some_iff]

end Reconcile

end AcpSession

section Options

variable {options : List SessionConfigOption} {option : SessionConfigOption}
variable {observed : Table ConfigKey ConfigValue × Bool}

open AcpSession

theorem lookup_observeConfigOptions_of_notMem {key : ConfigKey}
    (hnew : key ∉ options.map (·.id)) :
    (options.foldl observeConfigOption observed).1.lookup key = observed.1.lookup key := by
  induction options generalizing observed with
  | nil => rfl
  | cons option options ih =>
      rw [List.map_cons, List.mem_cons, not_or] at hnew
      rw [List.foldl_cons, ih hnew.2, observeConfigOption]
      split
      · rfl
      · exact AList.lookup_insert_ne hnew.1

theorem lookup_observeConfigOptions (hids : DistinctIds options) (h : option ∈ options)
    {value : ConfigValue} (hvalue : option.kind.currentValue? = some value) :
    (options.foldl observeConfigOption observed).1.lookup option.id = some value := by
  induction options generalizing observed with
  | nil => cases h
  | cons first options ih =>
      obtain ⟨hfirst, hrest⟩ := List.nodup_cons.mp hids
      rw [List.foldl_cons]
      obtain rfl | htail := List.mem_cons.mp h
      · rw [lookup_observeConfigOptions_of_notMem hfirst, observeConfigOption, hvalue]
        exact AList.lookup_insert _
      · exact ih hrest htail

end Options

structure Monitored where
  session : AcpSession
  mode : Option ModeId
  model : Option ModelId

namespace Monitored

def new (session : AcpSession) : Monitored := ⟨session, none, none⟩

def step (m : Monitored) (op : SessionOp) : Monitored where
  session := m.session.step op
  mode := op.modeReport.or m.mode
  model := (m.session.modelReport op).or m.model

def UpdateSpeaks (m : Monitored) : SessionOp → Prop
  | .applyAdvertisedConfigOptions update => m.session.SpeaksForItself update
  | _ => True

instance (m : Monitored) : ∀ op, Decidable (m.UpdateSpeaks op)
  | .applyAdvertisedConfigOptions update =>
      inferInstanceAs (Decidable (m.session.SpeaksForItself update))
  | .setDesiredMode _ | .setDesiredModel _ | .setDesiredConfig _ _ | .confirmMode _
  | .confirmModel _ | .seedPendingStartupConfig _ _ | .resolvePendingStartupConfigSeeds _
  | .applyObservedMode _ | .applyObservedModel _ | .applyObservedConfig _ _
  | .applyAdvertisedModes _ | .applyAdvertisedModels _ | .clearInvalidDesiredMode
  | .clearInvalidDesiredModel => inferInstanceAs (Decidable True)

structure DriftShown (m : Monitored) : Prop where
  mode : ∀ reported, m.mode = some reported →
    m.session.observed.modeId = some reported ∧
      ∀ mode, .setMode mode ∈ m.session.planReconcile ↔
        m.session.desired.modeId = some mode ∧ mode ≠ reported
  model : ∀ reported, m.model = some reported →
    m.session.observed.modelId = some reported ∧
      ∀ model, .setModel model ∈ m.session.planReconcile ↔
        m.session.desired.modelId = some model ∧ model ≠ reported

def OptionsObserved (m : Monitored) : SessionOp → Prop
  | .applyAdvertisedConfigOptions update =>
      let next := m.session.applyAdvertisedConfigOptions update
      ∀ options, next.advertised.configOptions = some options →
        update ⊆ options ∧ ∀ option ∈ options, ∀ value, option.kind.currentValue? = some value →
          next.observed.configCurrent.lookup option.id = some value
  | _ => True

structure Kept (m : Monitored) : Prop where
  mode : ∀ reported, m.mode = some reported → m.session.observed.modeId = some reported
  model : ∀ reported, m.model = some reported → m.session.observed.modelId = some reported
  distinct : ∀ options, m.session.advertised.configOptions = some options → DistinctIds options

variable {m : Monitored} {op : SessionOp}

theorem reported_step {recorded report last observed : Option String}
    (hrecord : recorded.or observed = report.or observed)
    (hlast : ∀ reported, last = some reported → observed = some reported) :
    ∀ reported, report.or last = some reported → recorded.or observed = some reported := by
  intro reported hreported
  rw [hrecord]
  cases report with
  | none => exact hlast reported hreported
  | some value => exact hreported

theorem Kept.step (h : m.Kept) (hspeaks : m.UpdateSpeaks op) : (m.step op).Kept where
  mode := by
    have hrecord : (m.session.recordedMode op).or m.session.observed.modeId =
        op.modeReport.or m.session.observed.modeId := by
      cases op with
      | applyAdvertisedConfigOptions update => exact hspeaks.recordedMode
      | _ => rfl
    rw [Monitored.step, (AcpSession.reports_step _).1]
    exact reported_step hrecord h.mode
  model := by
    have hrecord : (m.session.recordedModel op).or m.session.observed.modelId =
        (m.session.modelReport op).or m.session.observed.modelId := by
      cases op with
      | applyAdvertisedConfigOptions update => exact hspeaks.recordedModel
      | _ => rfl
    rw [Monitored.step, (AcpSession.reports_step _).2.1]
    exact reported_step hrecord h.model
  distinct := by
    rw [Monitored.step, (AcpSession.reports_step _).2.2]
    cases op with
    | applyAdvertisedConfigOptions update =>
        rintro options ⟨⟩
        exact DistinctIds.mergeConfigOptions h.distinct hspeaks.distinct
    | _ => exact h.distinct

theorem Kept.driftShown (h : m.Kept) : m.DriftShown where
  mode reported hreported := by
    refine ⟨h.mode reported hreported, fun mode ↦ ?_⟩
    rw [AcpSession.setMode_mem_planReconcile, h.mode reported hreported, Ne, Option.some_inj,
      eq_comm (a := reported)]
  model reported hreported := by
    refine ⟨h.model reported hreported, fun model ↦ ?_⟩
    rw [AcpSession.setModel_mem_planReconcile, h.model reported hreported, Ne, Option.some_inj,
      eq_comm (a := reported)]

theorem Kept.optionsObserved (h : m.Kept) (hspeaks : m.UpdateSpeaks op) :
    m.OptionsObserved op := by
  cases op with
  | applyAdvertisedConfigOptions update =>
      intro options hoptions
      obtain ⟨hobserved, hkept⟩ := m.session.applyAdvertisedConfigOptions_spec update
      obtain rfl : mergeConfigOptions m.session.advertised.configOptions update = options :=
        Option.some_inj.mp (hkept.symm.trans hoptions)
      refine ⟨fun option hmem ↦ mem_mergeConfigOptions hspeaks.distinct hmem, ?_⟩
      intro option hmem value hvalue
      have hids := DistinctIds.mergeConfigOptions h.distinct hspeaks.distinct
      rw [hobserved]
      exact lookup_observeConfigOptions hids hmem hvalue
  | _ => trivial

/-- A run whose updates speak for themselves never hides a drift: whatever was reported last is
observed, and the plan corrects exactly the wishes that differ from it. -/
theorem drift_shown {session : AcpSession} (hopened : session.advertised.configOptions = none)
    {ops : List SessionOp} (h : Meets step UpdateSpeaks (new session) ops) :
    Throughout step DriftShown (new session) ops ∧
      Meets step OptionsObserved (new session) ops := by
  have hnew : (new session).Kept := by
    refine ⟨fun _ hreport ↦ (by cases hreport), fun _ hreport ↦ (by cases hreport), ?_⟩
    intro options hoptions
    cases hopened.symm.trans hoptions
  constructor
  · have hkept := throughout_of_meets (fun _ _ hkept hspeaks ↦ Kept.step hkept hspeaks) hnew h
    exact hkept.mono fun _ ↦ Kept.driftShown
  · exact meets_of_meets (fun _ _ hkept hspeaks ↦ Kept.step hkept hspeaks)
      (fun _ _ hkept hspeaks ↦ hkept.optionsObserved hspeaks) hnew h

def modelOption (current : ModelId) : SessionConfigOption where
  id := "model"
  category := some .model
  kind := .select ⟨current, .ungrouped [⟨"gpt-5.5", "GPT-5.5", none⟩, ⟨"gpt-5.4", "GPT-5.4", none⟩]⟩

def confirmedModel : List SessionOp :=
  [.applyAdvertisedConfigOptions [modelOption "gpt-5.5"], .confirmModel "gpt-5.4",
    .applyAdvertisedConfigOptions [modelOption "gpt-5.5"], .setDesiredMode "plan",
    .applyObservedMode "default", .applyAdvertisedModels ⟨"gpt-5.5", []⟩]

def resumed : AcpSession := (AcpSession.new none none ∅).preloadPersisted ⟨some "plan", none, ∅⟩

theorem confirmedModel_drift_shown :
    Throughout step DriftShown (new resumed) confirmedModel ∧
      Meets step OptionsObserved (new resumed) confirmedModel :=
  drift_shown rfl (by decide +kernel)

/-- The confirmed model stays observed although the CLI has reported another one since. -/
theorem confirmedModel_hides_report :
    ¬∀ (session : AcpSession), session.advertised.configOptions = none →
      ∀ (ops : List SessionOp) (model : ModelId),
        (ops.filterMap SessionOp.modelReport).getLast? = some model →
          (run AcpSession.step session ops).observed.modelId = some model := by
  intro h
  have hobserved := h (AcpSession.new none none ∅) rfl (confirmedModel.take 3) "gpt-5.5"
    (by decide +kernel)
  exact absurd hobserved (by decide +kernel)

-- An update without a mode brings back the mode an earlier one has shown.
example :
    (run AcpSession.step (AcpSession.new none none ∅)
      [.applyAdvertisedConfigOptions
          [⟨"mode", some .mode, .select ⟨"plan", .ungrouped [⟨"plan", "Plan", none⟩]⟩⟩],
        .applyObservedMode "default",
        .applyAdvertisedConfigOptions [modelOption "gpt-5.5"]]).observed.modeId = some "plan" := by
  decide +kernel

end Monitored

end Zaowutai.Acp
