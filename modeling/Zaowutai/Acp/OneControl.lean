import Zaowutai.Acp.ConfigSnapshot
import Zaowutai.Acp.HiddenDrift

/-!
# One control for each concept

The mode and the model are shown as options of the snapshot.  An option stands
for one of them where the session reads its catalog off the option, where it
resolves a startup seed to it, or where it was made up from the catalog.
-/

namespace Zaowutai.Acp

open Zaowutai.Lib

inductive ConfigConcept
  | mode
  | model
  deriving DecidableEq, Repr

namespace ConfigConcept

def category : ConfigConcept → SessionConfigOptionCategory
  | .mode => .mode
  | .model => .model

/-- The id of the option made up from the catalog. -/
def key : ConfigConcept → String
  | .mode => "mode"
  | .model => "model"

def ids (c : ConfigConcept) : List String := configOptionAliasesForCategory c.category

def origin : ConfigConcept → ConfigOptionOrigin
  | .mode => .syntheticLegacyMode
  | .model => .syntheticLegacyModel

def derives (options : List SessionConfigOption) : ConfigConcept → Bool
  | .mode => (deriveModesFromConfigOptions options).isSome
  | .model => (deriveModelsFromConfigOptions options).isSome

theorem derives_eq (c : ConfigConcept) (options : List SessionConfigOption) :
    c.derives options = (deriveCatalog options c.ids c.category).isSome := by
  cases c with
  | mode => exact Option.isSome_map
  | model => exact Option.isSome_map

end ConfigConcept

def ConfigSupplementSummary.supplements (summary : ConfigSupplementSummary) :
    ConfigConcept → Bool
  | .mode => summary.mode
  | .model => summary.model

def SessionConfigKind.withCurrent (value : ConfigValue) : SessionConfigKind → SessionConfigKind
  | .select chosen => .select { chosen with currentValue := value }
  | .other => .other

def SessionConfigOption.withCurrent (option : SessionConfigOption) (value : ConfigValue) :
    SessionConfigOption :=
  { option with kind := option.kind.withCurrent value }

/-- The option whose select `find_select` finds. -/
def catalogOption (options : List SessionConfigOption) (ids : List String)
    (category : SessionConfigOptionCategory) : Option SessionConfigOption :=
  options.find? (fun option ↦ option.category = some category && option.kind.select?.isSome) <|>
    options.find? fun option ↦ option.id ∈ ids && option.kind.select?.isSome

section Catalog

variable {options : List SessionConfigOption} {option : SessionConfigOption} {ids : List String}
variable {category : SessionConfigOptionCategory}

theorem findSome?_select (p : SessionConfigOption → Prop) [DecidablePred p] :
    (options.findSome? fun option ↦ if p option then option.kind.select? else none) =
      (options.find? fun option ↦ p option && option.kind.select?.isSome).bind
        (·.kind.select?) := by
  induction options with
  | nil => rfl
  | cons option options ih =>
      by_cases hp : p option
      · cases hselect : option.kind.select? with
        | none => simp [hp, hselect, ih]
        | some select => simp [hp, hselect]
      · simp [hp, ih]

theorem findSelect_eq :
    findSelect options ids category =
      (catalogOption options ids category).bind (·.kind.select?) := by
  rw [findSelect, catalogOption, findSome?_select, findSome?_select]
  cases hfind : options.find? fun option ↦
      option.category = some category && option.kind.select?.isSome with
  | none => rfl
  | some option =>
      have hselect := List.find?_some hfind
      rw [Bool.and_eq_true] at hselect
      obtain ⟨select, hselect⟩ := Option.isSome_iff_exists.mp hselect.2
      simp [hselect]

theorem find?_and {p q : SessionConfigOption → Bool} (hp : options.find? p = some option)
    (hq : q option = true) : (options.find? fun option ↦ p option && q option) = some option := by
  induction options with
  | nil => cases hp
  | cons first options ih =>
      cases hfirst : p first with
      | true =>
          rw [List.find?_cons_of_pos hfirst] at hp
          obtain rfl := Option.some_inj.mp hp
          exact List.find?_cons_of_pos (by simp [hfirst, hq])
      | false =>
          rw [List.find?_cons_of_neg (by simp [hfirst])] at hp ⊢
          exact ih hp

theorem catalogOption_of_seed {select : SessionConfigSelect}
    (hseed : selectOptionForStartupSeed options category = some option)
    (hselect : option.kind = .select select) :
    catalogOption options (configOptionAliasesForCategory category) category = some option := by
  have hq : option.kind.select?.isSome = true := by rw [hselect]; rfl
  rw [selectOptionForStartupSeed] at hseed
  rw [catalogOption]
  cases hfind : options.find? (·.category = some category) with
  | some first =>
      rw [hfind] at hseed
      obtain rfl := Option.some_inj.mp hseed
      rw [find?_and hfind hq]
      rfl
  | none =>
      rw [hfind] at hseed
      have hnone : (options.find? fun option ↦
          decide (option.category = some category) && option.kind.select?.isSome) = none := by
        rw [List.find?_eq_none] at hfind ⊢
        intro other hmem hother
        exact hfind other hmem (Bool.and_eq_true _ _ ▸ hother).1
      rw [hnone]
      exact find?_and hseed hq

theorem catalogOption_eq_none
    (h : ∀ option ∈ options, option.category ≠ some category ∧ option.id ∉ ids) :
    catalogOption options ids category = none := by
  have hcategory : (options.find? fun option ↦
      decide (option.category = some category) && option.kind.select?.isSome) = none :=
    List.find?_eq_none.mpr fun option hmem ↦ by simp [(h option hmem).1]
  have hids : (options.find? fun option ↦
      decide (option.id ∈ ids) && option.kind.select?.isSome) = none :=
    List.find?_eq_none.mpr fun option hmem ↦ by simp [(h option hmem).2]
  rw [catalogOption, hcategory, hids]
  rfl

theorem deriveCatalog_eq_none
    (h : ∀ option ∈ options, option.category ≠ some category ∧ option.id ∉ ids) :
    deriveCatalog options ids category = none := by
  rw [deriveCatalog, findSelect_eq, catalogOption_eq_none h]
  rfl

theorem selectOptionForStartupSeed_eq_none
    (h : ∀ option ∈ options, option.category ≠ some category ∧
      option.id ∉ configOptionAliasesForCategory category) :
    selectOptionForStartupSeed options category = none := by
  have hcategory : options.find? (·.category = some category) = none :=
    List.find?_eq_none.mpr fun option hmem ↦ by simp [(h option hmem).1]
  have hids : options.find? (·.id ∈ configOptionAliasesForCategory category) = none :=
    List.find?_eq_none.mpr fun option hmem ↦ by simp [(h option hmem).2]
  rw [selectOptionForStartupSeed, hcategory, hids]
  rfl

end Catalog

namespace AcpSession

variable (s : AcpSession)

def realOptions : List SessionConfigOption := s.advertised.configOptions.getD []

def denoted (c : ConfigConcept) : List SessionConfigOption :=
  (if c.derives s.realOptions then (catalogOption s.realOptions c.ids c.category).toList else []) ++
    (selectOptionForStartupSeed s.realOptions c.category).toList

def denotes (c : ConfigConcept) : AcpConfigOptionDto × ConfigOptionOrigin → Bool
  | (option, .real) => option ∈ (s.denoted c).map dtoFromSdkOption
  | (_, .syntheticLegacyMode) => c = .mode
  | (_, .syntheticLegacyModel) => c = .model

def controls (c : ConfigConcept) : List (AcpConfigOptionDto × ConfigOptionOrigin) :=
  s.configSnapshot.entries.filter (s.denotes c)

/-- What comes back over a channel after a change: the option with its new value, or the mode or
the model by itself. -/
def report : ConfigSetPath → ConfigValue → AcpSession
  | .configOption id, value =>
      match s.advertised.configOptions with
      | none => s
      | some options =>
          s.applyAdvertisedConfigOptions
            ((options.find? (·.id = id)).map (·.withCurrent value)).toList
  | .legacyMode, value => s.confirmMode value
  | .legacyModel, value => s.confirmModel value

def RoutedToOneChannel (option : AcpConfigOptionDto) : Prop :=
  ∃ path,
    (∀ value taken, resolveSetPath s.configSnapshot option.id value = .ok taken → taken = path) ∧
    (∀ value, (s.report path value).configSnapshot.optionCurrent option.id = some value) ∧
      ∀ other, other ≠ path → ∀ value,
        (s.report other value).configSnapshot.optionCurrent option.id = option.currentValue

structure OneControl : Prop where
  concepts : ∀ c, (s.controls c).length ≤ 1
  distinct : (s.configSnapshot.options.map (·.id)).Nodup
  accepts : ∀ option ∈ s.configSnapshot.options, ∀ value,
    (∃ path, resolveSetPath s.configSnapshot option.id value = .ok path) ↔
      value ∈ option.options.map (·.value)
  routes : ∀ c, ∀ control ∈ s.controls c, s.RoutedToOneChannel control.1

def Apart (c : ConfigConcept) : Prop :=
  ∀ made ∈ s.configSnapshot.entries, made.2 = c.origin →
    ∀ option ∈ s.realOptions, option.id ∉ c.ids

def SeedsSelect (c : ConfigConcept) : Prop :=
  c.derives s.realOptions = true →
    ∃ option select, selectOptionForStartupSeed s.realOptions c.category = some option ∧
      option.kind = .select select

structure OneSelect : Prop where
  concepts : ∀ c, s.Apart c → s.SeedsSelect c → (s.controls c).length ≤ 1
  distinct : (s.configSnapshot.options.map (·.id)).Nodup
  accepts : ∀ option ∈ s.configSnapshot.options, ∀ value,
    (∃ path, resolveSetPath s.configSnapshot option.id value = .ok path) ↔
      option.options = [] ∨ value ∈ option.options.map (·.value)
  routes : (∀ c, s.Apart c) → ∀ option ∈ s.configSnapshot.options, option.optionType = "select" →
    s.RoutedToOneChannel option

def catalogDto : ConfigConcept → Option AcpConfigOptionDto
  | .mode => s.advertised.modes.map dtoFromModes
  | .model => s.advertised.models.map dtoFromModels

def synthetic (c : ConfigConcept) : Option AcpConfigOptionDto :=
  match s.advertised.configOptions with
  | none => s.catalogDto c
  | some options =>
      if (ConfigSnapshot.supplementSummaryForRealOptions options s.advertised.modes
        s.advertised.models).supplements c then s.catalogDto c else none

section Snapshot

variable {s} {c : ConfigConcept} {option : SessionConfigOption} {dto : AcpConfigOptionDto}

theorem entries_configSnapshot :
    s.configSnapshot.entries =
      (s.realOptions.map fun option ↦ (dtoFromSdkOption option, .real)) ++
        ((s.synthetic .mode).map (·, .syntheticLegacyMode)).toList ++
          ((s.synthetic .model).map (·, .syntheticLegacyModel)).toList := by
  unfold configSnapshot realOptions synthetic
  cases s.advertised.configOptions with
  | none => simp [ConfigSnapshot.fromLegacyCatalogs, catalogDto]
  | some options =>
      simp only [ConfigSnapshot.fromRealOptionsWithRuntimeSupplements,
        ConfigSnapshot.entries_pushIfSome, ConfigSnapshot.entries_fromRealOptions,
        Option.getD_some]
      rfl

theorem mem_entries_real :
    (dto, .real) ∈ s.configSnapshot.entries ↔
      ∃ option ∈ s.realOptions, dtoFromSdkOption option = dto := by
  simp [entries_configSnapshot]

theorem mem_entries_synthetic :
    (dto, c.origin) ∈ s.configSnapshot.entries ↔ s.synthetic c = some dto := by
  cases c <;> simp [entries_configSnapshot, ConfigConcept.origin]

theorem catalogDto_id (h : s.catalogDto c = some dto) : dto.id = c.key := by
  cases c <;>
  · obtain ⟨catalog, -, rfl⟩ := Option.map_eq_some_iff.mp h
    rfl

theorem supplements_iff {options : List SessionConfigOption} :
    (ConfigSnapshot.supplementSummaryForRealOptions options s.advertised.modes
        s.advertised.models).supplements c = true ↔
      (∀ option ∈ options, option.category ≠ some c.category ∧ option.id ≠ c.key) ∧
        (s.catalogDto c).any (!·.options.isEmpty) = true := by
  cases c <;>
    simp [ConfigSupplementSummary.supplements, ConfigSnapshot.supplementSummaryForRealOptions,
      realOptionMatchesCategoryOrId, catalogDto, ConfigConcept.category, ConfigConcept.key,
      dtoFromModes, dtoFromModels, Option.any_map]

theorem synthetic_spec (h : s.synthetic c = some dto) :
    s.catalogDto c = some dto ∧
      ∀ option ∈ s.realOptions, option.category ≠ some c.category ∧ option.id ≠ c.key := by
  unfold synthetic at h
  unfold realOptions
  cases hoptions : s.advertised.configOptions with
  | none =>
      rw [hoptions] at h
      exact ⟨h, fun _ hmem ↦ (by cases hmem)⟩
  | some options =>
      rw [hoptions] at h
      dsimp only at h
      split at h
      · next hsupplements => exact ⟨h, (supplements_iff.mp hsupplements).1⟩
      · cases h

theorem dtoFromSdkOption_id : (dtoFromSdkOption option).id = option.id := by
  rw [dtoFromSdkOption]
  cases option.kind <;> rfl

theorem synthetic_id (h : s.synthetic c = some dto) :
    dto.id = c.key ∧ c.key ∉ s.realOptions.map (·.id) := by
  obtain ⟨hdto, hreal⟩ := synthetic_spec h
  refine ⟨catalogDto_id hdto, fun hmem ↦ ?_⟩
  obtain ⟨option, hoption, hid⟩ := List.mem_map.mp hmem
  exact (hreal option hoption).2 hid

theorem distinct_configSnapshot (hids : DistinctIds s.realOptions) :
    (s.configSnapshot.options.map (·.id)).Nodup := by
  have hreal : (s.realOptions.map fun option ↦ (dtoFromSdkOption option).id) =
      s.realOptions.map (·.id) :=
    List.map_congr_left fun _ _ ↦ dtoFromSdkOption_id
  have hmade : ∀ c, ∀ id ∈ ((s.synthetic c).map (·.id)).toList,
      id = c.key ∧ c.key ∉ s.realOptions.map (·.id) := by
    intro c id hid
    obtain ⟨dto, hdto, rfl⟩ := Option.map_eq_some_iff.mp (Option.mem_toList.mp hid)
    exact synthetic_id hdto
  have hmap : s.configSnapshot.options.map (·.id) =
      s.realOptions.map (·.id) ++ ((s.synthetic .mode).map (·.id)).toList ++
        ((s.synthetic .model).map (·.id)).toList := by
    rw [← ConfigSnapshot.map_fst_entries, entries_configSnapshot]
    cases s.synthetic .mode <;> cases s.synthetic .model <;> simp [Function.comp_def, hreal]
  rw [hmap, List.nodup_append, List.nodup_append]
  refine ⟨⟨hids, Option.toList_nodup _, ?_⟩, Option.toList_nodup _, ?_⟩
  · rintro id hid _ hmode rfl
    obtain ⟨rfl, hnot⟩ := hmade .mode id hmode
    exact hnot hid
  · rintro id hid _ hmodel rfl
    obtain ⟨rfl, hnot⟩ := hmade .model id hmodel
    obtain hid | hid := List.mem_append.mp hid
    · exact hnot hid
    · exact absurd (hmade .mode _ hid).1 (by decide)

theorem accepts_iff (hids : DistinctIds s.realOptions) (h : dto ∈ s.configSnapshot.options)
    (value : String) :
    (∃ path, resolveSetPath s.configSnapshot dto.id value = .ok path) ↔
      dto.options = [] ∨ value ∈ dto.options.map (·.value) := by
  obtain ⟨origin, hentry⟩ := ConfigSnapshot.mem_options.mp h
  rw [ConfigSnapshot.resolveSetPath_of_mem (distinct_configSnapshot hids) hentry]
  split
  · next haccepted => exact ⟨fun _ ↦ haccepted, fun _ ↦ ⟨_, rfl⟩⟩
  · next hrejected => exact ⟨fun ⟨_, hok⟩ ↦ (by cases hok), fun h ↦ absurd h hrejected⟩

end Snapshot

section Concepts

variable {s} {c : ConfigConcept}

theorem mem_controls {control : AcpConfigOptionDto × ConfigOptionOrigin}
    (h : control ∈ s.controls c) :
    (∃ option ∈ s.denoted c, dtoFromSdkOption option = control.1) ∨
      s.synthetic c = some control.1 := by
  obtain ⟨hentry, hdenotes⟩ := List.mem_filter.mp h
  obtain ⟨dto, origin⟩ := control
  cases origin with
  | real => exact .inl (List.mem_map.mp (of_decide_eq_true hdenotes))
  | syntheticLegacyMode =>
      obtain rfl : c = .mode := of_decide_eq_true hdenotes
      exact .inr (mem_entries_synthetic.mp hentry)
  | syntheticLegacyModel =>
      obtain rfl : c = .model := of_decide_eq_true hdenotes
      exact .inr (mem_entries_synthetic.mp hentry)

theorem denoted_eq_nil
    (h : ∀ option ∈ s.realOptions, option.category ≠ some c.category ∧ option.id ∉ c.ids) :
    s.denoted c = [] := by
  rw [denoted, catalogOption_eq_none h, selectOptionForStartupSeed_eq_none h]
  cases c.derives s.realOptions <;> rfl

theorem denoted_id (hselect : s.SeedsSelect c) : ∃ id, ∀ option ∈ s.denoted c, option.id = id := by
  rw [denoted]
  cases hderives : c.derives s.realOptions with
  | true =>
      obtain ⟨option, select, hseed, hkind⟩ := hselect hderives
      refine ⟨option.id, ?_⟩
      rw [hseed, ConfigConcept.ids, catalogOption_of_seed hseed hkind]
      simp
  | false =>
      cases selectOptionForStartupSeed s.realOptions c.category with
      | none => exact ⟨"", by simp⟩
      | some option => exact ⟨option.id, by simp⟩

theorem control_id (hapart : s.Apart c) (hselect : s.SeedsSelect c) :
    ∃ id, ∀ control ∈ s.controls c, control.1.id = id := by
  cases hmade : s.synthetic c with
  | some dto =>
      have hnone := denoted_eq_nil fun option hoption ↦
        ⟨((synthetic_spec hmade).2 option hoption).1,
          hapart (dto, c.origin) (mem_entries_synthetic.mpr hmade) rfl option hoption⟩
      refine ⟨c.key, fun control hcontrol ↦ ?_⟩
      obtain ⟨option, hoption, -⟩ | hsame := mem_controls hcontrol
      · rw [hnone] at hoption
        cases hoption
      · exact (synthetic_id hsame).1
  | none =>
      obtain ⟨id, hid⟩ := denoted_id hselect
      refine ⟨id, fun control hcontrol ↦ ?_⟩
      obtain ⟨option, hoption, heq⟩ | hsame := mem_controls hcontrol
      · rw [← heq, dtoFromSdkOption_id]
        exact hid option hoption
      · cases hmade.symm.trans hsame

theorem controls_length_le_one (hids : DistinctIds s.realOptions) (hapart : s.Apart c)
    (hselect : s.SeedsSelect c) : (s.controls c).length ≤ 1 := by
  obtain ⟨id, hid⟩ := control_id hapart hselect
  have hnodup : ((s.controls c).map (·.1.id)).Nodup := by
    have hall := distinct_configSnapshot hids
    rw [← ConfigSnapshot.map_fst_entries, List.map_map] at hall
    exact hall.sublist (List.filter_sublist.map _)
  have hconstant : (s.controls c).map (·.1.id) = List.replicate (s.controls c).length id := by
    refine List.eq_replicate_iff.mpr ⟨List.length_map _, fun _ hmem ↦ ?_⟩
    obtain ⟨control, hcontrol, rfl⟩ := List.mem_map.mp hmem
    exact hid control hcontrol
  rw [hconstant] at hnodup
  exact List.nodup_replicate.mp hnodup

end Concepts

section Report

variable {s} {c : ConfigConcept} {option : SessionConfigOption} {dto : AcpConfigOptionDto}
variable {path : ConfigSetPath} {value : ConfigValue}

def recast (path : ConfigSetPath) (value : ConfigValue) (option : SessionConfigOption) :
    SessionConfigOption :=
  if path = .configOption option.id then option.withCurrent value else option

@[simp] theorem recast_id : (recast path value option).id = option.id := by
  rw [recast]
  split <;> rfl

@[simp] theorem recast_category : (recast path value option).category = option.category := by
  rw [recast]
  split <;> rfl

theorem merge_report {options : List SessionConfigOption} (hids : DistinctIds options)
    (id : String) :
    mergeConfigOptions (some options)
        ((options.find? (·.id = id)).map (·.withCurrent value)).toList =
      options.map (recast (.configOption id) value) := by
  induction options with
  | nil => rfl
  | cons first options ih =>
      obtain ⟨hfirst, hrest⟩ := List.nodup_cons.mp hids
      rw [List.map_cons]
      by_cases heq : first.id = id
      · have hsame : ∀ option ∈ options, recast (.configOption id) value option = option := by
          intro option hmem
          refine if_neg fun hid ↦ hfirst ?_
          have hfirstId : first.id = option.id := heq.trans (ConfigSetPath.configOption.inj hid)
          exact List.mem_map.mpr ⟨option, hmem, hfirstId.symm⟩
        rw [List.find?_cons_of_pos (by simpa using heq), List.map_congr_left hsame, List.map_id',
          recast, if_pos (congrArg _ heq.symm)]
        exact if_pos rfl
      · have hne : recast (.configOption id) value first = first :=
          if_neg fun hid ↦ heq (ConfigSetPath.configOption.inj hid).symm
        rw [List.find?_cons_of_neg (by simpa using heq), hne, ← ih hrest]
        cases hfind : options.find? (·.id = id) with
        | none => rfl
        | some option =>
            have hid : option.id = id := by simpa using List.find?_some hfind
            exact if_neg fun hsame ↦ heq (hsame.trans hid)

variable (path value) in
theorem configOptions_report (hids : DistinctIds s.realOptions) :
    (s.report path value).advertised.configOptions =
      s.advertised.configOptions.map (·.map (recast path value)) := by
  have hlegacy : (∀ id, path ≠ .configOption id) →
      s.advertised.configOptions = s.advertised.configOptions.map (·.map (recast path value)) := by
    intro hpath
    have hsame : recast path value = id := funext fun option ↦ if_neg (hpath option.id)
    rw [hsame, List.map_id_fun, Option.map_id]
    rfl
  cases path with
  | configOption id =>
      rw [realOptions] at hids
      rw [report]
      cases hoptions : s.advertised.configOptions with
      | none => exact hoptions
      | some options =>
          rw [hoptions] at hids
          refine (s.applyAdvertisedConfigOptions_spec _).2.trans ?_
          rw [keptOptions, hoptions]
          exact congrArg some (merge_report hids id)
  | legacyMode =>
      refine Eq.trans ?_ (hlegacy fun _ h ↦ (by cases h))
      simp [report, confirmMode, applyObservedMode, recordMode]
  | legacyModel =>
      refine Eq.trans ?_ (hlegacy fun _ h ↦ (by cases h))
      simp [report, confirmModel, applyObservedModel, recordModel]

theorem realOptions_report (hids : DistinctIds s.realOptions) :
    (s.report path value).realOptions = s.realOptions.map (recast path value) := by
  rw [realOptions, configOptions_report _ _ hids, realOptions]
  cases s.advertised.configOptions <;> rfl

variable (path value) in
theorem distinct_report (hids : DistinctIds s.realOptions) :
    DistinctIds (s.report path value).realOptions := by
  have hmap : (s.realOptions.map (recast path value)).map (·.id) = s.realOptions.map (·.id) := by
    rw [List.map_map]
    exact List.map_congr_left fun _ _ ↦ recast_id
  rw [realOptions_report hids, DistinctIds, hmap]
  exact hids

theorem optionCurrent_report_real (hids : DistinctIds s.realOptions)
    (h : option ∈ s.realOptions) :
    (s.report path value).configSnapshot.optionCurrent option.id =
      (dtoFromSdkOption (recast path value option)).currentValue := by
  have hmem : (dtoFromSdkOption (recast path value option), .real) ∈
      (s.report path value).configSnapshot.entries := by
    refine mem_entries_real.mpr ⟨recast path value option, ?_, rfl⟩
    rw [realOptions_report hids]
    exact List.mem_map_of_mem h
  have hcurrent := ConfigSnapshot.optionCurrent_of_mem
    (distinct_configSnapshot (distinct_report path value hids))
    (ConfigSnapshot.mem_options.mpr ⟨_, hmem⟩)
  rwa [dtoFromSdkOption_id, recast_id] at hcurrent

theorem catalogDto_applyAdvertisedConfigOptions {update : List SessionConfigOption}
    (h : c.derives (mergeConfigOptions s.advertised.configOptions update) = false) :
    (s.applyAdvertisedConfigOptions update).catalogDto c = s.catalogDto c := by
  rw [applyAdvertisedConfigOptions]
  generalize mergeConfigOptions s.advertised.configOptions update = options at h
  cases c with
  | mode =>
      have hnone : deriveModesFromConfigOptions options = none := by
        simpa [ConfigConcept.derives] using h
      have hmodels : ∀ t : AcpSession,
          (t.applyDerivedModels options).advertised.modes = t.advertised.modes := by
        intro t
        rw [applyDerivedModels]
        split
        · rfl
        · simp [applyAdvertisedModels, recordModel]
      simp [catalogDto, observeConfigOptions, applyDerivedModes, hnone, hmodels]
  | model =>
      have hnone : deriveModelsFromConfigOptions options = none := by
        simpa [ConfigConcept.derives] using h
      have hmodes : (s.applyDerivedModes options).advertised.models = s.advertised.models := by
        rw [applyDerivedModes]
        split
        · rfl
        · simp [applyAdvertisedModes, recordMode]
      simp [catalogDto, observeConfigOptions, applyDerivedModels, hnone, hmodes]

def shown (c : ConfigConcept) (path : ConfigSetPath) (value : ConfigValue)
    (dto : AcpConfigOptionDto) : AcpConfigOptionDto :=
  if path = c.origin.setPath c.key then { dto with currentValue := some value } else dto

variable (path value) in
theorem catalogDto_report (hids : DistinctIds s.realOptions) (hmade : s.synthetic c = some dto)
    (hapart : ∀ option ∈ s.realOptions, option.id ∉ c.ids) :
    (s.report path value).catalogDto c = some (shown c path value dto) := by
  obtain ⟨hcatalog, hreal⟩ := synthetic_spec hmade
  cases path with
  | configOption id =>
      have hother : shown c (.configOption id) value dto = dto :=
        if_neg (by cases c <;> exact fun h ↦ (by cases h))
      rw [hother, ← hcatalog, report]
      cases hoptions : s.advertised.configOptions with
      | none => rfl
      | some options =>
          refine catalogDto_applyAdvertisedConfigOptions ?_
          rw [realOptions, hoptions, Option.getD_some] at hids hreal hapart
          rw [hoptions, merge_report hids, ConfigConcept.derives_eq, deriveCatalog_eq_none]
          · rfl
          · intro option hmem
            obtain ⟨option, hoption, rfl⟩ := List.mem_map.mp hmem
            rw [recast_category, recast_id]
            exact ⟨(hreal option hoption).1, hapart option hoption⟩
  | legacyMode =>
      cases c with
      | mode =>
          obtain ⟨modes, hmodes, rfl⟩ := Option.map_eq_some_iff.mp hcatalog
          rw [shown, if_pos (by rfl)]
          simp [report, confirmMode, applyObservedMode, recordMode, catalogDto, knownModes, hmodes,
            dtoFromModes]
      | model =>
          rw [shown, if_neg (by decide), ← hcatalog]
          simp [report, confirmMode, applyObservedMode, recordMode, catalogDto]
  | legacyModel =>
      cases c with
      | mode =>
          rw [shown, if_neg (by decide), ← hcatalog]
          simp [report, confirmModel, applyObservedModel, recordModel, catalogDto]
      | model =>
          obtain ⟨models, hmodels, rfl⟩ := Option.map_eq_some_iff.mp hcatalog
          rw [shown, if_pos (by rfl)]
          simp [report, confirmModel, applyObservedModel, recordModel, catalogDto, knownModels,
            hmodels, dtoFromModels]

variable (path value) in
theorem synthetic_report (hids : DistinctIds s.realOptions) (hmade : s.synthetic c = some dto)
    (hapart : ∀ option ∈ s.realOptions, option.id ∉ c.ids) :
    (s.report path value).synthetic c = some (shown c path value dto) := by
  have hcatalog := catalogDto_report path value hids hmade hapart
  have hoptions := configOptions_report path value hids
  rw [synthetic] at hmade ⊢
  rw [hoptions]
  cases hkept : s.advertised.configOptions with
  | none => exact hcatalog
  | some options =>
      rw [hkept] at hmade
      dsimp only [Option.map_some] at hmade ⊢
      split at hmade
      · next hsupplements =>
          obtain ⟨hreal, hlisted⟩ := supplements_iff.mp hsupplements
          have hshown : (shown c path value dto).options = dto.options := by
            rw [shown]
            split <;> rfl
          rw [if_pos, hcatalog]
          refine supplements_iff.mpr ⟨?_, ?_⟩
          · intro option hmem
            obtain ⟨option, hoption, rfl⟩ := List.mem_map.mp hmem
            rw [recast_category, recast_id]
            exact hreal option hoption
          · rw [hmade, Option.any_some] at hlisted
            rw [hcatalog, Option.any_some, hshown]
            exact hlisted
      · cases hmade

theorem optionCurrent_report_synthetic (hids : DistinctIds s.realOptions)
    (hmade : s.synthetic c = some dto) (hapart : ∀ option ∈ s.realOptions, option.id ∉ c.ids) :
    (s.report path value).configSnapshot.optionCurrent dto.id =
      (shown c path value dto).currentValue := by
  have hmem := mem_entries_synthetic.mpr
    (synthetic_report path value hids hmade hapart)
  have hcurrent := ConfigSnapshot.optionCurrent_of_mem
    (distinct_configSnapshot (distinct_report path value hids))
    (ConfigSnapshot.mem_options.mpr ⟨_, hmem⟩)
  have hid : (shown c path value dto).id = dto.id := by
    rw [shown]
    split <;> rfl
  rwa [hid] at hcurrent

theorem taken_eq (hids : DistinctIds s.realOptions) {origin : ConfigOptionOrigin}
    (h : (dto, origin) ∈ s.configSnapshot.entries) {taken : ConfigSetPath}
    (hok : resolveSetPath s.configSnapshot dto.id value = .ok taken) :
    taken = origin.setPath dto.id := by
  rw [ConfigSnapshot.resolveSetPath_of_mem (distinct_configSnapshot hids) h] at hok
  split at hok
  · exact (Except.ok.inj hok).symm
  · cases hok

theorem routed_real (hids : DistinctIds s.realOptions) (h : option ∈ s.realOptions)
    (hselect : (dtoFromSdkOption option).optionType = "select") :
    s.RoutedToOneChannel (dtoFromSdkOption option) := by
  have hentry : (dtoFromSdkOption option, .real) ∈ s.configSnapshot.entries :=
    mem_entries_real.mpr ⟨option, h, rfl⟩
  refine ⟨.configOption option.id, fun value taken hok ↦ ?_, fun value ↦ ?_,
    fun other hother value ↦ ?_⟩
  · rw [taken_eq hids hentry hok, dtoFromSdkOption_id]
    rfl
  · rw [dtoFromSdkOption_id, optionCurrent_report_real hids h, recast, if_pos rfl]
    rw [dtoFromSdkOption] at hselect
    rw [dtoFromSdkOption, SessionConfigOption.withCurrent]
    cases hkind : option.kind with
    | select select => rfl
    | other =>
        rw [hkind] at hselect
        simp at hselect
  · rw [dtoFromSdkOption_id, optionCurrent_report_real hids h, recast, if_neg hother]

theorem routed_synthetic (hids : DistinctIds s.realOptions) (hmade : s.synthetic c = some dto)
    (hapart : ∀ option ∈ s.realOptions, option.id ∉ c.ids) : s.RoutedToOneChannel dto := by
  have hentry := mem_entries_synthetic.mpr hmade
  have hpath : c.origin.setPath dto.id = c.origin.setPath c.key := by cases c <;> rfl
  refine ⟨c.origin.setPath c.key, fun value taken hok ↦ ?_, fun value ↦ ?_,
    fun other hother value ↦ ?_⟩
  · rw [taken_eq hids hentry hok, hpath]
  · rw [optionCurrent_report_synthetic hids hmade hapart, shown, if_pos rfl]
  · rw [optionCurrent_report_synthetic hids hmade hapart, shown, if_neg hother]

end Report

theorem oneSelect (s : AcpSession) (hids : DistinctIds s.realOptions) : s.OneSelect where
  concepts _ hapart hselect := controls_length_le_one hids hapart hselect
  distinct := distinct_configSnapshot hids
  accepts _ h value := accepts_iff hids h value
  routes hapart dto h hselect := by
    obtain ⟨origin, hentry⟩ := ConfigSnapshot.mem_options.mp h
    cases origin with
    | real =>
        obtain ⟨option, hoption, rfl⟩ := mem_entries_real.mp hentry
        exact routed_real hids hoption hselect
    | syntheticLegacyMode =>
        exact routed_synthetic hids (mem_entries_synthetic (c := .mode).mp hentry)
          (hapart .mode _ hentry rfl)
    | syntheticLegacyModel =>
        exact routed_synthetic hids (mem_entries_synthetic (c := .model).mp hentry)
          (hapart .model _ hentry rfl)

def FirstListDistinct (s : AcpSession) : SessionOp → Prop
  | .applyAdvertisedConfigOptions update => s.advertised.configOptions = none → DistinctIds update
  | _ => True

instance (s : AcpSession) : ∀ op, Decidable (s.FirstListDistinct op)
  | .applyAdvertisedConfigOptions update =>
      decidable_of_iff (s.advertised.configOptions.isNone = true → DistinctIds update)
        (by rw [FirstListDistinct, Option.isNone_iff_eq_none])
  | .setDesiredMode _ | .setDesiredModel _ | .setDesiredConfig _ _ | .confirmMode _
  | .confirmModel _ | .seedPendingStartupConfig _ _ | .resolvePendingStartupConfigSeeds _
  | .applyObservedMode _ | .applyObservedModel _ | .applyObservedConfig _ _
  | .applyAdvertisedModes _ | .applyAdvertisedModels _ | .clearInvalidDesiredMode
  | .clearInvalidDesiredModel => inferInstanceAs (Decidable True)

variable {s} in
theorem distinct_step {op : SessionOp} (hids : DistinctIds s.realOptions)
    (hfirst : s.FirstListDistinct op) : DistinctIds (s.step op).realOptions := by
  rw [realOptions, (reports_step _).2.2]
  cases op with
  | applyAdvertisedConfigOptions update =>
      rw [keptOptions, Option.getD_some]
      rw [realOptions] at hids
      cases hkept : s.advertised.configOptions with
      | none => exact hfirst hkept
      | some options =>
          rw [hkept] at hids
          exact DistinctIds.foldl_mergeConfigOption hids
  | _ => exact hids

/-- Along every run whose first list has no id twice there is one control for each concept. -/
theorem oneSelect_throughout (opened : AcpSession)
    (hopened : opened.advertised.configOptions = none) {ops : List SessionOp}
    (h : Meets step FirstListDistinct opened ops) : Throughout step OneSelect opened ops := by
  have hnew : DistinctIds opened.realOptions := by
    rw [realOptions, hopened]
    exact List.nodup_nil
  have hkept := throughout_of_meets (P := fun s : AcpSession ↦ DistinctIds s.realOptions)
    (fun _ _ hids hfirst ↦ distinct_step hids hfirst) hnew h
  exact hkept.mono oneSelect

def listing (options : List SessionConfigOption) : AcpSession :=
  run step (AcpSession.new none none ∅) [.applyAdvertisedConfigOptions options]

def modesOption : SessionConfigOption where
  id := "modes"
  category := none
  kind := .select ⟨"plan", .ungrouped [⟨"plan", "Plan", none⟩, ⟨"build", "Build", none⟩]⟩

def notesOption : SessionConfigOption := ⟨"notes", none, .other⟩

/-- An option that two ids name is shown beside the one made up from its own catalog, an option
that is no select takes what it does not list, and a list may give an id twice. -/
theorem not_oneControl :
    ¬(listing [modesOption]).OneControl ∧ ¬(listing [notesOption]).OneControl ∧
      ¬(listing [notesOption, notesOption]).OneControl := by
  refine ⟨fun h ↦ ?_, fun h ↦ ?_, fun h ↦ ?_⟩
  · exact absurd (h.concepts .mode) (by decide +kernel)
  · have hnotes :
        dtoFromSdkOption notesOption ∈ (listing [notesOption]).configSnapshot.options := by
      decide +kernel
    have htaken : resolveSetPath (listing [notesOption]).configSnapshot "notes" "anything" =
        .ok (.configOption "notes") := by
      decide +kernel
    have hlisted := (h.accepts _ hnotes "anything").mp ⟨_, htaken⟩
    cases hlisted
  · exact absurd h.distinct (by decide +kernel)

def twoLists : List SessionOp :=
  [.applyAdvertisedModels ⟨"gpt-5.5", [⟨"gpt-5.5", "GPT-5.5", none⟩]⟩,
    .applyAdvertisedConfigOptions [notesOption, modesOption], .setDesiredMode "build",
    .applyAdvertisedConfigOptions [notesOption, notesOption]]

theorem twoLists_oneSelect :
    Throughout step OneSelect (AcpSession.new none none ∅) twoLists :=
  oneSelect_throughout _ rfl (by decide +kernel)

end AcpSession

end Zaowutai.Acp
