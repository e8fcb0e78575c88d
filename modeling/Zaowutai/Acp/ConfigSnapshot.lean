import Zaowutai.Acp.AcpSession

/-!
# The config snapshot

A session shows its config options as one list: the options the CLI advertises
and, for a catalog that none of them stands for, an option made up from the
catalog.  A change is sent where the option came from.
-/

namespace Zaowutai.Acp

structure AcpConfigSelectOptionDto where
  value : String
  name : Option String
  label : Option String
  description : Option String
  deriving DecidableEq, Repr

structure AcpConfigOptionDto where
  id : String
  optionType : String
  currentValue : Option String
  options : List AcpConfigSelectOptionDto
  deriving DecidableEq, Repr

inductive ConfigOptionOrigin
  | real
  | syntheticLegacyMode
  | syntheticLegacyModel
  deriving DecidableEq, Repr

structure ConfigSupplementSummary where
  mode : Bool
  model : Bool
  deriving DecidableEq, Repr

inductive ConfigSetPath
  | configOption (optionId : String)
  | legacyMode
  | legacyModel
  deriving DecidableEq, Repr

inductive ConfigSetPathError
  | optionNotFound
  | valueNotSelectable
  deriving DecidableEq, Repr

structure ConfigSnapshot where
  options : List AcpConfigOptionDto
  optionOrigins : List ConfigOptionOrigin
  aligned : options.length = optionOrigins.length

def dtoFromSelectOption (option : CatalogEntry) : AcpConfigSelectOptionDto where
  value := option.id
  name := some option.name
  label := none
  description := option.description

def dtoFromSdkOption (option : SessionConfigOption) : AcpConfigOptionDto :=
  match option.kind with
  | .select select =>
      ⟨option.id, "select", some select.currentValue,
        select.options.flatten.map dtoFromSelectOption⟩
  | .other => ⟨option.id, "string", none, []⟩

def dtoFromModes (modes : SessionModeState) : AcpConfigOptionDto where
  id := "mode"
  optionType := "select"
  currentValue := some modes.currentModeId
  options := modes.availableModes.map dtoFromSelectOption

def dtoFromModels (models : LegacySessionModelState) : AcpConfigOptionDto where
  id := "model"
  optionType := "select"
  currentValue := some models.currentModelId
  options := models.availableModels.map dtoFromSelectOption

def realOptionMatchesCategoryOrId (option : SessionConfigOption)
    (category : SessionConfigOptionCategory) (optionId : String) : Bool :=
  option.category = some category || option.id = optionId

namespace ConfigSnapshot

def push (snapshot : ConfigSnapshot) (option : AcpConfigOptionDto) (origin : ConfigOptionOrigin) :
    ConfigSnapshot where
  options := snapshot.options ++ [option]
  optionOrigins := snapshot.optionOrigins ++ [origin]
  aligned := by rw [List.length_append, List.length_append, snapshot.aligned]; rfl

def pushIfSome (snapshot : ConfigSnapshot) (origin : ConfigOptionOrigin) :
    Option AcpConfigOptionDto → ConfigSnapshot
  | none => snapshot
  | some option => snapshot.push option origin

def empty : ConfigSnapshot := ⟨[], [], rfl⟩

def fromRealOptions (options : List SessionConfigOption) : ConfigSnapshot where
  options := options.map dtoFromSdkOption
  optionOrigins := List.replicate options.length .real
  aligned := by rw [List.length_map, List.length_replicate]

def fromLegacyCatalogs (modes : Option SessionModeState)
    (models : Option LegacySessionModelState) : ConfigSnapshot :=
  (empty.pushIfSome .syntheticLegacyMode (modes.map dtoFromModes)).pushIfSome
    .syntheticLegacyModel (models.map dtoFromModels)

def supplementSummaryForRealOptions (options : List SessionConfigOption)
    (modes : Option SessionModeState) (models : Option LegacySessionModelState) :
    ConfigSupplementSummary where
  mode := !(options.any (realOptionMatchesCategoryOrId · .mode "mode")) &&
    modes.any (!·.availableModes.isEmpty)
  model := !(options.any (realOptionMatchesCategoryOrId · .model "model")) &&
    models.any (!·.availableModels.isEmpty)

def fromRealOptionsWithRuntimeSupplements (options : List SessionConfigOption)
    (modes : Option SessionModeState) (models : Option LegacySessionModelState) :
    ConfigSnapshot :=
  let summary := supplementSummaryForRealOptions options modes models
  ((fromRealOptions options).pushIfSome .syntheticLegacyMode
      (if summary.mode then modes.map dtoFromModes else none)).pushIfSome
    .syntheticLegacyModel (if summary.model then models.map dtoFromModels else none)

def optionCurrent (snapshot : ConfigSnapshot) (optionId : String) : Option String :=
  (snapshot.options.find? (·.id = optionId)).bind (·.currentValue)

def entries (snapshot : ConfigSnapshot) : List (AcpConfigOptionDto × ConfigOptionOrigin) :=
  snapshot.options.zip snapshot.optionOrigins

end ConfigSnapshot

def ConfigOptionOrigin.setPath (optionId : String) : ConfigOptionOrigin → ConfigSetPath
  | .real => .configOption optionId
  | .syntheticLegacyMode => .legacyMode
  | .syntheticLegacyModel => .legacyModel

def resolveSetPath (snapshot : ConfigSnapshot) (optionId requested : String) :
    Except ConfigSetPathError ConfigSetPath :=
  match snapshot.options.zipIdx.find? (·.1.id = optionId) with
  | none => .error .optionNotFound
  | some (option, index) =>
      if !option.options.isEmpty && !option.options.any (·.value = requested) then
        .error .valueNotSelectable
      else .ok ((snapshot.optionOrigins[index]?.getD .real).setPath option.id)

def AcpSession.configSnapshot (s : AcpSession) : ConfigSnapshot :=
  match s.advertised.configOptions with
  | some options =>
      .fromRealOptionsWithRuntimeSupplements options s.advertised.modes s.advertised.models
  | none => .fromLegacyCatalogs s.advertised.modes s.advertised.models

namespace ConfigSnapshot

variable {snapshot : ConfigSnapshot} {option : AcpConfigOptionDto} {origin : ConfigOptionOrigin}

theorem map_fst_entries : snapshot.entries.map Prod.fst = snapshot.options :=
  List.map_fst_zip snapshot.aligned.le

theorem mem_options :
    option ∈ snapshot.options ↔ ∃ origin, (option, origin) ∈ snapshot.entries := by
  rw [← map_fst_entries, List.mem_map]
  constructor
  · rintro ⟨⟨option, origin⟩, hmem, rfl⟩
    exact ⟨origin, hmem⟩
  · rintro ⟨origin, hmem⟩
    exact ⟨(option, origin), hmem, rfl⟩

@[simp] theorem entries_empty : empty.entries = [] := rfl

@[simp] theorem entries_pushIfSome (option : Option AcpConfigOptionDto) :
    (snapshot.pushIfSome origin option).entries =
      snapshot.entries ++ (option.map (·, origin)).toList := by
  cases option with
  | none => exact (List.append_nil _).symm
  | some option => exact List.zip_append snapshot.aligned

@[simp] theorem entries_fromRealOptions (options : List SessionConfigOption) :
    (fromRealOptions options).entries =
      options.map fun option ↦ (dtoFromSdkOption option, .real) := by
  induction options with
  | nil => rfl
  | cons option options ih => exact congrArg (_ :: ·) ih

section Distinct

theorem find?_of_nodup_map {α β : Type*} [DecidableEq β] (key : α → β) {xs : List α} {x : α}
    (hkeys : (xs.map key).Nodup) (h : x ∈ xs) : xs.find? (key · = key x) = some x := by
  induction xs with
  | nil => cases h
  | cons y xs ih =>
      obtain ⟨hy, hrest⟩ := List.nodup_cons.mp hkeys
      obtain rfl | htail := List.mem_cons.mp h
      · exact List.find?_cons_of_pos (decide_eq_true rfl)
      · have hne : key y ≠ key x := fun heq ↦ hy (heq ▸ List.mem_map_of_mem htail)
        rw [List.find?_cons_of_neg (by simpa using hne)]
        exact ih hrest htail

variable (hids : (snapshot.options.map (·.id)).Nodup)
include hids

theorem optionCurrent_of_mem (h : option ∈ snapshot.options) :
    snapshot.optionCurrent option.id = option.currentValue := by
  rw [optionCurrent, find?_of_nodup_map (·.id) hids h, Option.bind_some]

theorem resolveSetPath_of_mem (h : (option, origin) ∈ snapshot.entries) (requested : String) :
    resolveSetPath snapshot option.id requested =
      if option.options = [] ∨ requested ∈ option.options.map (·.value) then
        .ok (origin.setPath option.id)
      else .error .valueNotSelectable := by
  obtain ⟨index, hindex⟩ := List.mem_iff_getElem?.mp h
  obtain ⟨hoption, horigin⟩ := List.getElem?_zip_eq_some.mp hindex
  have hfind : snapshot.options.zipIdx.find? (·.1.id = option.id) = some (option, index) := by
    refine find?_of_nodup_map (fun entry : AcpConfigOptionDto × ℕ ↦ entry.1.id)
      (x := (option, index)) ?_ ?_
    · have hmap := congrArg (List.map (·.id)) (List.zipIdx_map_fst 0 snapshot.options)
      rw [List.map_map] at hmap
      exact hmap ▸ hids
    · exact List.mk_mem_zipIdx_iff_getElem?.mpr hoption
  rw [resolveSetPath, hfind]
  dsimp only
  rw [horigin, Option.getD_some]
  by_cases haccepted : option.options = [] ∨ requested ∈ option.options.map (·.value)
  · rw [if_pos haccepted, if_neg]
    obtain hnone | hmem := haccepted
    · simp [hnone]
    · simpa using fun _ ↦ hmem
  · rw [if_neg haccepted, if_pos]
    simpa using haccepted

end Distinct

end ConfigSnapshot

end Zaowutai.Acp
