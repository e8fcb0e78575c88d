import Zaowutai.Lib.Framing
import Zaowutai.Lib.Table

/-!
# Data of inline buttons

A button carries its action and its parameters as one text, with the category
under which the action is handled in front.  The text is cut apart again when
the button is pressed.
-/

namespace Zaowutai.Channel

open Zaowutai.Lib

inductive ActionCategory
  | platform
  | system
  | chat
  deriving DecidableEq, Repr

namespace ActionCategory

def handledActions : ActionCategory → List String
  | .platform => ["pairing.show", "pairing.refresh", "pairing.check", "pairing.help"]
  | .system =>
      ["session.new", "session.status", "help.show", "help.features", "help.pairing", "help.tips",
        "settings.show"]
  | .chat => ["chat.send", "chat.regenerate", "chat.continue", "action.copy", "system.confirm"]

end ActionCategory

structure ActionButton where
  label : String
  action : String
  params : Option (Table String String)

structure ParsedCallback where
  category : ActionCategory
  action : String
  params : Option (Table String String)

def categoryOf (text : String) : Option ActionCategory :=
  if text = "platform" then some .platform
  else if text = "system" then some .system
  else if text = "chat" then some .chat
  else none

def parseParams (text : List Char) : Option (Table String String) :=
  let map := (decodePairs ',' '=' text).foldl
    (fun map pair ↦ map.insert (String.ofList pair.1) (String.ofList pair.2)) ∅
  if map.entries = [] then none else some map

/-- A text `category:action` or `category:action:k=v,k=v`. -/
def parseCallbackData (data : String) : Option ParsedCallback :=
  match splitn ':' 3 data.toList with
  | category :: action :: rest =>
      (categoryOf (String.ofList category)).map fun category ↦
        { category := category
          action := String.ofList action
          params :=
            match rest with
            | [text] => if text = [] then none else parseParams text
            | _ => none }
  | _ => none

def actionCategoryPrefix (action : String) : String :=
  if action = "system.confirm" then "chat"
  else
    let first := ((action.toList.splitOn '.').head?.map String.ofList).getD ""
    if first = "pairing" then "platform"
    else if first = "chat" ∨ first = "action" then "chat"
    else "system"

/-- The parameters are written in the order in which the map iterates over them. -/
def formatCallbackData (button : ActionButton) : String :=
  let category := actionCategoryPrefix button.action
  match button.params with
  | some params =>
      if params.entries = [] then category ++ ":" ++ button.action
      else
        category ++ ":" ++ button.action ++ ":" ++
          ",".intercalate (params.entries.map fun entry ↦ entry.1 ++ "=" ++ entry.2)
  | none => category ++ ":" ++ button.action

def RoundTrips (button : ActionButton) : Prop :=
  ∃ parsed, parseCallbackData (formatCallbackData button) = some parsed ∧
    parsed.action = button.action ∧
    (∀ category : ActionCategory, button.action ∈ category.handledActions →
      parsed.category = category) ∧
    ∀ key, (parsed.params.getD ∅).lookup key = (button.params.getD ∅).lookup key

def ActionButton.Clean (button : ActionButton) : Prop :=
  ∀ key value, (button.params.getD ∅).lookup key = some value →
    ',' ∉ key.toList ∧ '=' ∉ key.toList ∧ ',' ∉ value.toList

section Category

theorem prefix_cases (action : String) :
    actionCategoryPrefix action = "platform" ∨ actionCategoryPrefix action = "system" ∨
      actionCategoryPrefix action = "chat" := by
  rw [actionCategoryPrefix]
  split
  · exact .inr (.inr rfl)
  · simp only
    split
    · exact .inl rfl
    · split
      · exact .inr (.inr rfl)
      · exact .inr (.inl rfl)

theorem category_of_prefix (action : String) :
    ∃ category, categoryOf (actionCategoryPrefix action) = some category ∧
      ':' ∉ (actionCategoryPrefix action).toList := by
  rcases prefix_cases action with h | h | h
  · exact ⟨.platform, by rw [h]; rfl, by rw [h]; decide⟩
  · exact ⟨.system, by rw [h]; rfl, by rw [h]; decide⟩
  · exact ⟨.chat, by rw [h]; rfl, by rw [h]; decide⟩

theorem category_of_handled {category : ActionCategory} {action : String}
    (h : action ∈ category.handledActions) :
    categoryOf (actionCategoryPrefix action) = some category := by
  revert action
  cases category with
  | platform => decide
  | system => decide
  | chat => decide

end Category

section Texts

variable {data : String} {category action text : List Char}

theorem parse_action (hdata : data.toList = category ++ ':' :: action) (hcategory : ':' ∉ category)
    (haction : ':' ∉ action) :
    parseCallbackData data =
      (categoryOf (String.ofList category)).map fun found ↦ ⟨found, String.ofList action, none⟩ := by
  rw [parseCallbackData, hdata, splitn_append 1 hcategory, splitn_of_not_mem 1 haction]

theorem parse_params (hdata : data.toList = category ++ ':' :: (action ++ ':' :: text))
    (hcategory : ':' ∉ category) (haction : ':' ∉ action) :
    parseCallbackData data =
      (categoryOf (String.ofList category)).map fun found ↦
        ⟨found, String.ofList action, if text = [] then none else parseParams text⟩ := by
  rw [parseCallbackData, hdata, splitn_append 1 hcategory, splitn_append 0 haction, splitn]

end Texts

section Params

variable {params : Table String String} {text : List Char} {key value : String}

def pairsOf (params : Table String String) : List (List Char × List Char) :=
  params.entries.map fun entry ↦ (entry.1.toList, entry.2.toList)

def readPairs (pairs : List (List Char × List Char)) : Table String String :=
  pairs.foldl (fun map pair ↦ map.insert (String.ofList pair.1) (String.ofList pair.2)) ∅

theorem getD_parseParams : (parseParams text).getD ∅ = readPairs (decodePairs ',' '=' text) := by
  rw [parseParams]
  split
  · next hnil => exact (AList.ext hnil).symm
  · rfl

theorem mem_of_lookup_readPairs {pairs : List (List Char × List Char)}
    (h : (readPairs pairs).lookup key = some value) :
    ∃ pair ∈ pairs, String.ofList pair.1 = key ∧ String.ofList pair.2 = value := by
  have hfold : ∀ map : Table String String,
      AList.lookup key (pairs.foldl
        (fun map pair ↦ map.insert (String.ofList pair.1) (String.ofList pair.2)) map) = some value →
      (∃ pair ∈ pairs, String.ofList pair.1 = key ∧ String.ofList pair.2 = value) ∨
        map.lookup key = some value := by
    clear h
    induction pairs with
    | nil => exact fun map h ↦ .inr h
    | cons pair pairs ih =>
        intro map h
        rcases ih _ h with ⟨found, hmem, hkey⟩ | hlookup
        · exact .inl ⟨found, List.mem_cons_of_mem pair hmem, hkey⟩
        · rw [Table.lookup_insert_eq] at hlookup
          split at hlookup
          · next hself =>
              exact .inl ⟨pair, List.mem_cons_self, hself.symm, Option.some.inj hlookup⟩
          · exact .inr hlookup
  rcases hfold ∅ h with hfound | hnone
  · exact hfound
  · cases hnone

theorem lookup_readPairs_pairsOf : (readPairs (pairsOf params)).lookup key = params.lookup key := by
  rw [readPairs, pairsOf, List.foldl_map]
  simp only [String.ofList_toList]
  rw [Table.lookup_foldl_insert params.nodupKeys]
  exact Option.or_none

end Params

section Format

variable {button : ActionButton} {params : Table String String}

theorem format_of_empty (h : ∀ params, button.params = some params → params.entries = []) :
    (formatCallbackData button).toList =
      (actionCategoryPrefix button.action).toList ++ ':' :: button.action.toList := by
  rw [formatCallbackData]
  split
  · next params hparams =>
      rw [if_pos (h params hparams)]
      simp
  · simp

theorem format_of_params (hparams : button.params = some params) (hne : params.entries ≠ []) :
    (formatCallbackData button).toList =
      (actionCategoryPrefix button.action).toList ++
        ':' :: (button.action.toList ++ ':' :: encodePairs ',' '=' (pairsOf params)) := by
  have hpairs : params.entries.map (String.toList ∘ fun entry ↦ entry.1 ++ "=" ++ entry.2) =
      (pairsOf params).map fun pair ↦ pair.1 ++ '=' :: pair.2 := by
    rw [pairsOf, List.map_map]
    refine List.map_congr_left fun entry _ ↦ ?_
    simp
  rw [formatCallbackData, hparams]
  simp only [if_neg hne]
  rw [encodePairs, ← hpairs]
  simp [String.toList_intercalate]

theorem encodePairs_ne_nil {pairs : List (List Char × List Char)} (hne : pairs ≠ []) :
    encodePairs ',' '=' pairs ≠ [] := by
  cases pairs with
  | nil => exact absurd rfl hne
  | cons pair pairs =>
      cases pairs with
      | nil => simp [encodePairs]
      | cons next pairs => simp [encodePairs, List.intercalate]

end Format

section Press

variable {button : ActionButton} {params : Table String String} {category : ActionCategory}

theorem parse_format_of_empty (haction : ':' ∉ button.action.toList)
    (hcategory : categoryOf (actionCategoryPrefix button.action) = some category)
    (h : ∀ params, button.params = some params → params.entries = []) :
    parseCallbackData (formatCallbackData button) = some ⟨category, button.action, none⟩ := by
  obtain ⟨_, -, hcolon⟩ := category_of_prefix button.action
  rw [parse_action (format_of_empty h) hcolon haction, String.ofList_toList,
    String.ofList_toList, hcategory]
  rfl

theorem parse_format_of_params (haction : ':' ∉ button.action.toList)
    (hcategory : categoryOf (actionCategoryPrefix button.action) = some category)
    (hparams : button.params = some params) (hne : params.entries ≠ []) :
    parseCallbackData (formatCallbackData button) =
      some ⟨category, button.action, parseParams (encodePairs ',' '=' (pairsOf params))⟩ := by
  obtain ⟨_, -, hcolon⟩ := category_of_prefix button.action
  have htext : encodePairs ',' '=' (pairsOf params) ≠ [] :=
    encodePairs_ne_nil (by simpa [pairsOf] using hne)
  rw [parse_params (format_of_params hparams hne) hcolon haction, String.ofList_toList,
    String.ofList_toList, hcategory, if_neg htext]
  rfl

theorem cleanPair_of_clean (h : button.Clean) (hparams : button.params = some params) :
    ∀ pair ∈ pairsOf params, CleanPair ',' '=' pair := by
  intro pair hpair
  obtain ⟨entry, hentry, rfl⟩ := List.mem_map.mp hpair
  have hlookup : (button.params.getD ∅).lookup entry.1 = some entry.2 := by
    rw [hparams]
    exact Table.mem_entries_iff.mp hentry
  obtain ⟨hleft, hinner, hright⟩ := h entry.1 entry.2 hlookup
  exact ⟨hleft, hinner, hright⟩

theorem roundTrips_of_clean (haction : ':' ∉ button.action.toList) (h : button.Clean) :
    RoundTrips button := by
  obtain ⟨category, hcategory, -⟩ := category_of_prefix button.action
  have hrouted : ∀ other : ActionCategory, button.action ∈ other.handledActions →
      category = other := fun other hother ↦
    Option.some.inj (hcategory.symm.trans (category_of_handled hother))
  by_cases hempty : ∀ params, button.params = some params → params.entries = []
  · refine ⟨_, parse_format_of_empty haction hcategory hempty, rfl, hrouted, fun key ↦ ?_⟩
    cases hparams : button.params with
    | none => rfl
    | some params =>
        have hnil : params = ∅ := AList.ext (hempty params hparams)
        rw [hnil]
        rfl
  · push Not at hempty
    obtain ⟨params, hparams, hne⟩ := hempty
    refine ⟨_, parse_format_of_params haction hcategory hparams hne, rfl, hrouted, fun key ↦ ?_⟩
    have hpairs : pairsOf params ≠ [] := by simpa [pairsOf] using hne
    rw [getD_parseParams, decodePairs_encodePairs hpairs (by decide) (cleanPair_of_clean h hparams),
      lookup_readPairs_pairsOf, hparams]
    rfl

theorem clean_of_roundTrips (haction : ':' ∉ button.action.toList) (h : RoundTrips button) :
    button.Clean := by
  obtain ⟨parsed, hparse, -, -, hparams⟩ := h
  obtain ⟨category, hcategory, -⟩ := category_of_prefix button.action
  intro key value hlookup
  cases hbutton : button.params with
  | none =>
      rw [hbutton] at hlookup
      cases hlookup
  | some params =>
      have hne : params.entries ≠ [] := by
        intro hnil
        have hempty : params = ∅ := AList.ext hnil
        rw [hbutton, hempty] at hlookup
        cases hlookup
      rw [parse_format_of_params haction hcategory hbutton hne] at hparse
      cases hparse
      have hread := (hparams key).trans hlookup
      rw [getD_parseParams] at hread
      obtain ⟨pair, hpair, rfl, rfl⟩ := mem_of_lookup_readPairs hread
      have hclean := cleanPair_of_mem_decodePairs hpair
      rw [String.toList_ofList, String.toList_ofList]
      exact ⟨hclean.left, hclean.inner, hclean.right⟩

/-- The text of a button is read back exactly if no key has a comma or an equals sign in it and no
value a comma. -/
theorem roundTrips_iff_clean (haction : ':' ∉ button.action.toList) :
    RoundTrips button ↔ button.Clean :=
  ⟨clean_of_roundTrips haction, roundTrips_of_clean haction⟩

end Press

theorem roundTrips_iff_clean_help :
    RoundTrips ⟨"Help", "help.show", none⟩ ↔ ActionButton.Clean ⟨"Help", "help.show", none⟩ :=
  roundTrips_iff_clean (by decide)

def confirmButton : ActionButton :=
  ⟨"Yes", "system.confirm", some ((∅ : Table String String).insert "callId" "call,7")⟩

theorem confirmButton_not_roundTrips : ¬RoundTrips confirmButton := by
  intro h
  obtain ⟨-, -, hvalue⟩ := clean_of_roundTrips (by decide) h "callId" "call,7" rfl
  exact hvalue (by decide)

end Zaowutai.Channel
