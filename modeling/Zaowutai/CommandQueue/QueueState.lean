import Mathlib.Algebra.Order.BigOperators.Group.List
import Mathlib.Algebra.Order.Ring.Nat
import Mathlib.Algebra.Ring.Nat
import Zaowutai.Lib.Table

/-!
# The command queue of a conversation

The commands a user has queued while the agent is busy.  Every write of a queue
normalises it: what exceeds the limits on the number of commands and on the size
of the persisted state is cut off at the end.
-/

namespace Zaowutai.CommandQueue

open Zaowutai.Lib

inductive ChatFileRef where
  | project (peId relativePath : String)
  | upload (path : String)
  | «local» (path : String)
  deriving DecidableEq, Repr

def chatFileRefKey : ChatFileRef → String
  | .project peId relativePath => "project\x00" ++ peId ++ "\x00" ++ relativePath
  | .upload path => "upload\x00" ++ path
  | .local path => "local\x00" ++ path

structure SessionRef where
  id : String
  deriving DecidableEq, Repr

structure ConversationCommandQueueItem where
  id : String
  input : String
  files : List ChatFileRef
  sessions : Option (List SessionRef)
  createdAt : ℕ
  deriving DecidableEq, Repr

inductive ConversationCommandQueueMode where
  | auto
  | manual
  deriving DecidableEq, Repr

structure ConversationCommandQueueState where
  items : List ConversationCommandQueueItem
  isPaused : Bool
  mode : ConversationCommandQueueMode
  deriving DecidableEq, Repr

def maxQueuedCommands : ℕ := 20
def maxQueuedCommandInputLength : ℕ := 20000
def maxQueuedCommandFiles : ℕ := 50
def maxQueuedCommandStateBytes : ℕ := 256 * 1024

def createDefaultQueueState : ConversationCommandQueueState := ⟨[], false, .manual⟩

section Json

def jsonCharBytes (c : Char) : ℕ :=
  if c.toNat ∈ [0x8, 0x9, 0xA, 0xC, 0xD, 0x22, 0x5C] then 2
  else if c.toNat < 32 then 6
  else c.utf8Size

def jsonStringBytes (s : String) : ℕ := 2 + (s.toList.map jsonCharBytes).sum

def jsonArrayBytes (elements : List ℕ) : ℕ := 2 + elements.sum + (elements.length - 1)

def jsonObjectBytes (fields : List (String × ℕ)) : ℕ :=
  jsonArrayBytes (fields.map fun field ↦ jsonStringBytes field.1 + 1 + field.2)

def ChatFileRef.jsonBytes : ChatFileRef → ℕ
  | .project peId relativePath => jsonObjectBytes
      [("kind", jsonStringBytes "project"), ("pe_id", jsonStringBytes peId),
        ("relative_path", jsonStringBytes relativePath)]
  | .upload path => jsonObjectBytes
      [("kind", jsonStringBytes "upload"), ("path", jsonStringBytes path)]
  | .local path => jsonObjectBytes
      [("kind", jsonStringBytes "local"), ("path", jsonStringBytes path)]

/-- Absent session references are left out. -/
def ConversationCommandQueueItem.jsonBytes (item : ConversationCommandQueueItem) : ℕ :=
  let sessions := item.sessions.toList.map fun refs ↦
    ("sessions", jsonArrayBytes (refs.map fun ref ↦ jsonObjectBytes [("id", jsonStringBytes ref.id)]))
  jsonObjectBytes ([("id", jsonStringBytes item.id), ("input", jsonStringBytes item.input),
    ("files", jsonArrayBytes (item.files.map ChatFileRef.jsonBytes))] ++ sessions ++
      [("created_at", (Nat.toDigits 10 item.createdAt).length)])

def measureQueueStateBytes (state : ConversationCommandQueueState) : ℕ :=
  jsonObjectBytes
    [("items", jsonArrayBytes (state.items.map ConversationCommandQueueItem.jsonBytes)),
      ("isPaused", if state.isPaused then 4 else 5),
      ("mode", match state.mode with | .auto => 6 | .manual => 8)]

end Json

/-- The first reference of each key, in order. -/
def uniqueFiles (files : List ChatFileRef) : List ChatFileRef :=
  files.foldl (fun result ref ↦
    if chatFileRefKey ref ∈ result.map chatFileRefKey then result else result ++ [ref]) []

def normalizeSessionRefs (value : Option (List SessionRef)) : Option (List SessionRef) :=
  match value with
  | none => none
  | some entries =>
      let refs := entries.filter fun entry ↦ entry.id ≠ ""
      if refs = [] then none else some refs

def isWhiteSpace (c : Char) : Bool :=
  c.toNat ∈ [0x9, 0xA, 0xB, 0xC, 0xD, 0x20, 0xA0, 0x1680, 0x2028, 0x2029, 0x202F, 0x205F, 0x3000,
    0xFEFF] || (0x2000 ≤ c.toNat && c.toNat ≤ 0x200A)

def isInputEmpty (input : String) : Bool := input.toList.all isWhiteSpace

def utf16Length (s : String) : ℕ :=
  (s.toList.map fun c ↦ if 0x10000 ≤ c.toNat then 2 else 1).sum

def normalizeQueueItem (item : ConversationCommandQueueItem) :
    Option ConversationCommandQueueItem :=
  let normalizedItem := { item with
    files := uniqueFiles item.files
    sessions := normalizeSessionRefs item.sessions }
  if isInputEmpty normalizedItem.input ∨
      utf16Length normalizedItem.input > maxQueuedCommandInputLength ∨
      normalizedItem.files.length > maxQueuedCommandFiles then
    none
  else some normalizedItem

/-- The commands that fit after the given ones, up to the first that does not. -/
def takeFitting (isPaused : Bool) (mode : ConversationCommandQueueMode) :
    List ConversationCommandQueueItem → List ConversationCommandQueueItem →
      List ConversationCommandQueueItem
  | items, [] => items
  | items, item :: rest =>
      if measureQueueStateBytes ⟨items ++ [item], isPaused, mode⟩ > maxQueuedCommandStateBytes then
        items
      else takeFitting isPaused mode (items ++ [item]) rest

def normalizeQueueState (state : ConversationCommandQueueState) : ConversationCommandQueueState :=
  let normalizedItems := state.items.filterMap normalizeQueueItem
  let items := takeFitting state.isPaused state.mode [] (normalizedItems.take maxQueuedCommands)
  { items
    isPaused := if items = [] then false else state.isPaused
    mode := state.mode }

abbrev QueueStore := Table String ConversationCommandQueueState

def readPersistedQueueState (store : QueueStore) (conversationId : String) :
    ConversationCommandQueueState :=
  (store.lookup conversationId).getD createDefaultQueueState

def persistQueueState (store : QueueStore) (conversationId : String)
    (state : ConversationCommandQueueState) : QueueStore :=
  let normalized := normalizeQueueState state
  if normalized.items = [] ∧ !normalized.isPaused ∧ normalized.mode = .manual then
    store.erase conversationId
  else store.insert conversationId normalized

def removeQueuedCommand (items : List ConversationCommandQueueItem) (commandId : String) :
    List ConversationCommandQueueItem :=
  items.filter fun item ↦ item.id ≠ commandId

def restoreQueuedCommand (items : List ConversationCommandQueueItem)
    (failedItem : ConversationCommandQueueItem) : List ConversationCommandQueueItem :=
  failedItem :: removeQueuedCommand items failedItem.id

/-!
## What normalising a queue keeps

A normalised queue is left as it is by another normalisation, and by every
write that takes commands out of it.  What is cut off is always the end.
-/

variable {state : ConversationCommandQueueState}

section Items

theorem uniqueFiles_aux_nodup (files result : List ChatFileRef)
    (h : (result.map chatFileRefKey).Nodup) :
    ((files.foldl (fun result ref ↦ if chatFileRefKey ref ∈ result.map chatFileRefKey then result
      else result ++ [ref]) result).map chatFileRefKey).Nodup := by
  induction files generalizing result with
  | nil => exact h
  | cons ref files ih =>
      rw [List.foldl_cons]
      split
      · exact ih result h
      · next hnew =>
          refine ih _ ?_
          rw [List.map_append, List.map_singleton]
          exact h.append (List.nodup_singleton _) (List.disjoint_singleton.mpr hnew)

theorem uniqueFiles_aux_eq (files result : List ChatFileRef)
    (h : ((result ++ files).map chatFileRefKey).Nodup) :
    files.foldl (fun result ref ↦ if chatFileRefKey ref ∈ result.map chatFileRefKey then result
      else result ++ [ref]) result = result ++ files := by
  induction files generalizing result with
  | nil => rw [List.foldl_nil, List.append_nil]
  | cons ref files ih =>
      have hnew : chatFileRefKey ref ∉ result.map chatFileRefKey := by
        rw [List.map_append, List.map_cons] at h
        exact fun hmem ↦ List.disjoint_of_nodup_append h hmem List.mem_cons_self
      rw [List.foldl_cons, if_neg hnew, ih, List.append_assoc, List.singleton_append]
      rwa [List.append_assoc, List.singleton_append]

theorem uniqueFiles_uniqueFiles (files : List ChatFileRef) :
    uniqueFiles (uniqueFiles files) = uniqueFiles files :=
  uniqueFiles_aux_eq _ [] (uniqueFiles_aux_nodup files [] List.nodup_nil)

theorem normalizeSessionRefs_normalizeSessionRefs (value : Option (List SessionRef)) :
    normalizeSessionRefs (normalizeSessionRefs value) = normalizeSessionRefs value := by
  cases value with
  | none => rfl
  | some entries =>
      by_cases hnone : (entries.filter fun entry ↦ entry.id ≠ "") = []
      · simp only [normalizeSessionRefs, if_pos hnone]
      · simp only [normalizeSessionRefs, if_neg hnone, List.filter_filter, Bool.and_self]

theorem normalizeQueueItem_of_eq {item item' : ConversationCommandQueueItem}
    (h : normalizeQueueItem item = some item') : normalizeQueueItem item' = some item' := by
  simp only [normalizeQueueItem] at h
  split at h
  · cases h
  · next hvalid =>
      obtain rfl := Option.some.inj h
      simp only [normalizeQueueItem, uniqueFiles_uniqueFiles,
        normalizeSessionRefs_normalizeSessionRefs, if_neg hvalid]

end Items

section Bytes

variable {items items' : List ConversationCommandQueueItem} {isPaused : Bool}
  {mode : ConversationCommandQueueMode}

theorem jsonArrayBytes_mono {l l' : List ℕ} (h : l.Sublist l') :
    jsonArrayBytes l ≤ jsonArrayBytes l' := by
  have hsum : l.sum ≤ l'.sum := h.sum_le_sum fun n _ ↦ Nat.zero_le n
  have hlength : l.length ≤ l'.length := h.length_le
  rw [jsonArrayBytes, jsonArrayBytes]
  omega

theorem measureQueueStateBytes_mono (h : items.Sublist items') :
    measureQueueStateBytes ⟨items, isPaused, mode⟩ ≤
      measureQueueStateBytes ⟨items', isPaused, mode⟩ := by
  have hitems := jsonArrayBytes_mono (h.map ConversationCommandQueueItem.jsonBytes)
  simp only [measureQueueStateBytes, jsonObjectBytes, List.map_cons, List.map_nil, jsonArrayBytes,
    List.sum_cons, List.length_cons] at hitems ⊢
  omega

end Bytes

section Fitting

variable (isPaused : Bool) (mode : ConversationCommandQueueMode)

theorem takeFitting_prefix (items rest : List ConversationCommandQueueItem) :
    ∃ kept, kept <+: rest ∧ takeFitting isPaused mode items rest = items ++ kept := by
  induction rest generalizing items with
  | nil => exact ⟨[], List.prefix_refl [], (List.append_nil items).symm⟩
  | cons item rest ih =>
      rw [takeFitting]
      split
      · exact ⟨[], List.nil_prefix, (List.append_nil items).symm⟩
      · obtain ⟨kept, hkept, heq⟩ := ih (items ++ [item])
        refine ⟨item :: kept, List.cons_prefix_cons.mpr ⟨rfl, hkept⟩, ?_⟩
        rw [heq, List.append_assoc, List.singleton_append]

theorem takeFitting_fits (items rest : List ConversationCommandQueueItem) :
    takeFitting isPaused mode items rest = items ∨
      measureQueueStateBytes ⟨takeFitting isPaused mode items rest, isPaused, mode⟩ ≤
        maxQueuedCommandStateBytes := by
  induction rest generalizing items with
  | nil => exact .inl rfl
  | cons item rest ih =>
      rw [takeFitting]
      split
      · exact .inl rfl
      · next hfits =>
          rcases ih (items ++ [item]) with heq | hle
          · rw [heq]
            exact .inr (not_lt.mp hfits)
          · exact .inr hle

theorem takeFitting_eq {items rest : List ConversationCommandQueueItem}
    (h : rest ≠ [] →
      measureQueueStateBytes ⟨items ++ rest, isPaused, mode⟩ ≤ maxQueuedCommandStateBytes) :
    takeFitting isPaused mode items rest = items ++ rest := by
  induction rest generalizing items with
  | nil => rw [takeFitting, List.append_nil]
  | cons item rest ih =>
      have hsub : (items ++ [item]).Sublist (items ++ item :: rest) := by simp
      have hle := (measureQueueStateBytes_mono hsub).trans (h (List.cons_ne_nil item rest))
      rw [takeFitting, if_neg (not_lt.mpr hle), ih, List.append_assoc, List.singleton_append]
      intro _
      rw [List.append_assoc, List.singleton_append]
      exact h (List.cons_ne_nil item rest)

end Fitting

section Normal

structure Normal (state : ConversationCommandQueueState) : Prop where
  items : ∀ item ∈ state.items, normalizeQueueItem item = some item
  count : state.items.length ≤ maxQueuedCommands
  bytes : state.items ≠ [] → measureQueueStateBytes state ≤ maxQueuedCommandStateBytes
  resumed : state.items = [] → state.isPaused = false

theorem normal_normalizeQueueState (state : ConversationCommandQueueState) :
    Normal (normalizeQueueState state) := by
  let rest := (state.items.filterMap normalizeQueueItem).take maxQueuedCommands
  obtain ⟨kept, hkept, heq⟩ := takeFitting_prefix state.isPaused state.mode [] rest
  have hitems : (normalizeQueueState state).items = kept := heq
  have hmem : ∀ item ∈ kept, ∃ item', normalizeQueueItem item' = some item := by
    intro item hitem
    have hsub := List.mem_of_mem_take (hkept.subset hitem)
    obtain ⟨item', -, hsome⟩ := List.mem_filterMap.mp hsub
    exact ⟨item', hsome⟩
  refine ⟨fun item hitem ↦ ?_, ?_, fun hne ↦ ?_, fun hempty ↦ if_pos hempty⟩
  · obtain ⟨item', hsome⟩ := hmem item (hitems ▸ hitem)
    exact normalizeQueueItem_of_eq hsome
  · rw [hitems]
    exact hkept.length_le.trans (List.length_take_le maxQueuedCommands _)
  · have hpaused : (normalizeQueueState state).isPaused = state.isPaused := if_neg hne
    rcases takeFitting_fits state.isPaused state.mode [] rest with hnil | hle
    · exact absurd hnil hne
    · have hstate : normalizeQueueState state =
          ⟨takeFitting state.isPaused state.mode [] rest, state.isPaused, state.mode⟩ :=
        congrArg (fun isPaused ↦ (⟨_, isPaused, state.mode⟩ : ConversationCommandQueueState)) hpaused
      rwa [hstate]

theorem normalizeQueueState_of_normal (h : Normal state) : normalizeQueueState state = state := by
  have hmap : state.items.filterMap normalizeQueueItem = state.items := by
    rw [List.filterMap_congr h.items]
    exact List.filterMap_some
  have htake : state.items.take maxQueuedCommands = state.items := List.take_of_length_le h.count
  have hfit : takeFitting state.isPaused state.mode [] state.items = state.items :=
    takeFitting_eq state.isPaused state.mode h.bytes
  have hpaused : (if state.items = [] then false else state.isPaused) = state.isPaused := by
    split
    · next hempty => exact (h.resumed hempty).symm
    · rfl
  simp only [normalizeQueueState, hmap, htake, hfit, hpaused]

theorem Normal.sublist (h : Normal state) {items : List ConversationCommandQueueItem}
    (hsub : items.Sublist state.items) (hresumed : state.isPaused = false) :
    Normal ⟨items, false, state.mode⟩ where
  items item hitem := h.items item (hsub.subset hitem)
  count := hsub.length_le.trans h.count
  bytes hne := by
    have hstate : state.items ≠ [] := fun hempty ↦ hne (List.sublist_nil.mp (hempty ▸ hsub))
    have hle := h.bytes hstate
    rw [← hresumed]
    exact (measureQueueStateBytes_mono hsub).trans hle
  resumed _ := rfl

theorem isPaused_normalizeQueueState (h : (normalizeQueueState state).items ≠ []) :
    (normalizeQueueState state).isPaused = state.isPaused :=
  if_neg h

theorem normalizeQueueState_normalizeQueueState (state : ConversationCommandQueueState) :
    normalizeQueueState (normalizeQueueState state) = normalizeQueueState state :=
  normalizeQueueState_of_normal (normal_normalizeQueueState state)

theorem normal_createDefaultQueueState : Normal createDefaultQueueState where
  items item hitem := by simp [createDefaultQueueState] at hitem
  count := Nat.zero_le maxQueuedCommands
  bytes hne := absurd rfl hne
  resumed _ := rfl

@[simp] theorem readPersistedQueueState_persistQueueState (store : QueueStore) (c : String) :
    readPersistedQueueState (persistQueueState store c state) c = normalizeQueueState state := by
  simp only [persistQueueState, readPersistedQueueState]
  generalize normalizeQueueState state = normalized
  split
  · next hdefault =>
      obtain ⟨items, isPaused, mode⟩ := normalized
      obtain ⟨rfl, hpaused, rfl⟩ := hdefault
      rw [AList.lookup_erase, Option.getD_none, createDefaultQueueState]
      simpa using hpaused
  · rw [AList.lookup_insert, Option.getD_some]

theorem normalizeQueueItem_of_valid {item : ConversationCommandQueueItem}
    (hfiles : uniqueFiles item.files = item.files)
    (hsessions : normalizeSessionRefs item.sessions = item.sessions)
    (hinput : isInputEmpty item.input = false)
    (hlength : utf16Length item.input ≤ maxQueuedCommandInputLength)
    (hcount : item.files.length ≤ maxQueuedCommandFiles) :
    normalizeQueueItem item = some item := by
  simp only [normalizeQueueItem, hfiles, hsessions]
  rw [if_neg]
  rintro (hempty | hlong | hmany)
  · simp [hinput] at hempty
  · exact absurd hlength (not_le.mpr hlong)
  · exact absurd hcount (not_le.mpr hmany)

theorem files_of_normalizeQueueItem {item : ConversationCommandQueueItem}
    (h : normalizeQueueItem item = some item) :
    uniqueFiles item.files = item.files ∧ normalizeSessionRefs item.sessions = item.sessions := by
  simp only [normalizeQueueItem] at h
  split at h
  · cases h
  · have heq := Option.some.inj h
    exact ⟨congrArg ConversationCommandQueueItem.files heq,
      congrArg ConversationCommandQueueItem.sessions heq⟩

end Normal

end Zaowutai.CommandQueue
