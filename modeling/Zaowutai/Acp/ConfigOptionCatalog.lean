import Mathlib.Data.List.Nodup

/-!
# The catalog read off the config options

The CLI lists its mode and its model among its config options.  An update may
list some of the options only: it is merged into the list kept so far, option
by option, and the catalogs are derived from the merged list.
-/

namespace Zaowutai.Acp

structure CatalogEntry where
  id : String
  name : String
  description : Option String
  deriving DecidableEq, Repr

structure SessionModeState where
  currentModeId : String
  availableModes : List CatalogEntry
  deriving DecidableEq, Repr

structure LegacySessionModelState where
  currentModelId : String
  availableModels : List CatalogEntry
  deriving DecidableEq, Repr

inductive SessionConfigSelectOptions
  | ungrouped (options : List CatalogEntry)
  | grouped (groups : List (List CatalogEntry))
  | other
  deriving DecidableEq, Repr

structure SessionConfigSelect where
  currentValue : String
  options : SessionConfigSelectOptions
  deriving DecidableEq, Repr

inductive SessionConfigKind
  | select (select : SessionConfigSelect)
  | other
  deriving DecidableEq, Repr

inductive SessionConfigOptionCategory
  | mode
  | model
  | thoughtLevel
  | other (name : String)
  deriving DecidableEq, Repr

structure SessionConfigOption where
  id : String
  category : Option SessionConfigOptionCategory
  kind : SessionConfigKind
  deriving DecidableEq, Repr

def SessionConfigSelectOptions.flatten : SessionConfigSelectOptions → List CatalogEntry
  | .ungrouped options => options
  | .grouped groups => groups.flatten
  | .other => []

namespace SessionConfigKind

def select? : SessionConfigKind → Option SessionConfigSelect
  | .select chosen => some chosen
  | .other => none

def currentValue? (kind : SessionConfigKind) : Option String := kind.select?.map (·.currentValue)

def values (kind : SessionConfigKind) : List String :=
  (kind.select?.map (·.options.flatten.map (·.id))).getD []

end SessionConfigKind

def findSelect (options : List SessionConfigOption) (ids : List String)
    (category : SessionConfigOptionCategory) : Option SessionConfigSelect :=
  (options.findSome? fun option ↦
      if option.category = some category then option.kind.select? else none) <|>
    options.findSome? fun option ↦ if option.id ∈ ids then option.kind.select? else none

def nonEmptyOrFirst (value first : String) : String := if value.isEmpty then first else value

def deriveCatalog (options : List SessionConfigOption) (ids : List String)
    (category : SessionConfigOptionCategory) : Option (String × List CatalogEntry) :=
  (findSelect options ids category).bind fun select ↦
    match select.options.flatten with
    | [] => none
    | first :: rest => some (nonEmptyOrFirst select.currentValue first.id, first :: rest)

def deriveModesFromConfigOptions (options : List SessionConfigOption) : Option SessionModeState :=
  (deriveCatalog options ["mode", "modes"] .mode).map fun catalog ↦ ⟨catalog.1, catalog.2⟩

def deriveModelsFromConfigOptions (options : List SessionConfigOption) :
    Option LegacySessionModelState :=
  (deriveCatalog options ["model", "models"] .model).map fun catalog ↦ ⟨catalog.1, catalog.2⟩

/-- The option replaces the first one with its id, or is added at the end. -/
def mergeConfigOption : List SessionConfigOption → SessionConfigOption → List SessionConfigOption
  | [], option => [option]
  | existing :: merged, option =>
      if existing.id = option.id then option :: merged
      else existing :: mergeConfigOption merged option

def mergeConfigOptions (existing : Option (List SessionConfigOption))
    (incoming : List SessionConfigOption) : List SessionConfigOption :=
  match existing with
  | none => incoming
  | some existing => incoming.foldl mergeConfigOption existing

def DistinctIds (options : List SessionConfigOption) : Prop := (options.map (·.id)).Nodup

instance (options : List SessionConfigOption) : Decidable (DistinctIds options) :=
  inferInstanceAs (Decidable (options.map (·.id)).Nodup)

section Merge

variable {option other : SessionConfigOption} {merged incoming : List SessionConfigOption}

theorem mem_mergeConfigOption : option ∈ mergeConfigOption merged option := by
  induction merged with
  | nil => exact List.mem_singleton_self option
  | cons existing merged ih =>
      rw [mergeConfigOption]
      split
      · exact List.mem_cons_self
      · exact List.mem_cons_of_mem existing ih

theorem mem_mergeConfigOption_of_ne (hne : other.id ≠ option.id) (h : other ∈ merged) :
    other ∈ mergeConfigOption merged option := by
  induction merged with
  | nil => cases h
  | cons existing merged ih =>
      rw [mergeConfigOption]
      obtain rfl | htail := List.mem_cons.mp h
      · rw [if_neg hne]
        exact List.mem_cons_self
      · split
        · exact List.mem_cons_of_mem option htail
        · exact List.mem_cons_of_mem existing (ih htail)

theorem map_id_mergeConfigOption :
    (mergeConfigOption merged option).map (·.id) =
      if option.id ∈ merged.map (·.id) then merged.map (·.id)
      else merged.map (·.id) ++ [option.id] := by
  induction merged with
  | nil => rfl
  | cons existing merged ih =>
      by_cases heq : existing.id = option.id
      · simp [mergeConfigOption, heq]
      · simp only [mergeConfigOption, if_neg heq, List.map_cons, ih, List.mem_cons, Ne.symm heq,
          false_or]
        split <;> rfl

theorem DistinctIds.mergeConfigOption (h : DistinctIds merged) :
    DistinctIds (mergeConfigOption merged option) := by
  rw [DistinctIds, map_id_mergeConfigOption]
  split
  · exact h
  · next hnew =>
      refine List.nodup_append.mpr ⟨h, List.nodup_singleton _, ?_⟩
      rintro id hid _ hmem rfl
      exact hnew (List.mem_singleton.mp hmem ▸ hid)

theorem mem_foldl_mergeConfigOption_of_notMem (hnew : other.id ∉ incoming.map (·.id))
    (h : other ∈ merged) : other ∈ incoming.foldl Acp.mergeConfigOption merged := by
  induction incoming generalizing merged with
  | nil => exact h
  | cons option incoming ih =>
      rw [List.map_cons, List.mem_cons, not_or] at hnew
      exact ih hnew.2 (mem_mergeConfigOption_of_ne hnew.1 h)

theorem mem_foldl_mergeConfigOption (hids : DistinctIds incoming) (h : option ∈ incoming) :
    option ∈ incoming.foldl Acp.mergeConfigOption merged := by
  induction incoming generalizing merged with
  | nil => cases h
  | cons first incoming ih =>
      obtain ⟨hfirst, hrest⟩ := List.nodup_cons.mp hids
      rw [List.foldl_cons]
      obtain rfl | htail := List.mem_cons.mp h
      · exact mem_foldl_mergeConfigOption_of_notMem hfirst mem_mergeConfigOption
      · exact ih hrest htail

theorem mem_mergeConfigOptions {existing : Option (List SessionConfigOption)}
    (hids : DistinctIds incoming) (h : option ∈ incoming) :
    option ∈ mergeConfigOptions existing incoming := by
  cases existing with
  | none => exact h
  | some existing => exact mem_foldl_mergeConfigOption hids h

theorem DistinctIds.foldl_mergeConfigOption (h : DistinctIds merged) :
    DistinctIds (incoming.foldl Acp.mergeConfigOption merged) := by
  induction incoming generalizing merged with
  | nil => exact h
  | cons option incoming ih => exact ih h.mergeConfigOption

theorem DistinctIds.mergeConfigOptions {existing : Option (List SessionConfigOption)}
    (hkept : ∀ options, existing = some options → DistinctIds options)
    (hids : DistinctIds incoming) : DistinctIds (mergeConfigOptions existing incoming) := by
  cases existing with
  | none => exact hids
  | some existing => exact (hkept existing rfl).foldl_mergeConfigOption

end Merge

end Zaowutai.Acp
